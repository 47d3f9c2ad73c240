import LiveMarkup.Proofs.Source.Words
import LiveMarkup.Proofs.Text.ScriptString
import LiveMarkup.Statement

/-!
# Expressions that fit on a line of a script

The script of a document is made line by line of texts that are computed: numbers, string literals,
the values of statements. None of them has a line feed, which would break the line, and none has a
`<`, which could end the script element (`LiveMarkup.breaking` are these two octets). For string
literals this is the work of their escapes; a name needs none, and its literal is the name in
quotation marks (`LiveMarkup.scriptString_of_isBinding`).

The value of a statement is safe although its text is arbitrary: a literal is not copied from the
source but written anew from its value. `LiveMarkup.Statement.valueExpression_induction` says so
once, and that the value is well-formed follows in the same way.
-/

namespace LiveMarkup

/-- The octets that would break a line of a script, or end it. -/
def breaking : List UInt8 := [octet '\n', octet '<']

/-! ### Numbers -/

/-- An octet between two others is between them as a number. -/
theorem toNat_of_between {b c d : UInt8} (h : (decide (c ≤ b) && decide (b ≤ d)) = true) :
    c.toNat ≤ b.toNat ∧ b.toNat ≤ d.toNat := by
  rw [Bool.and_eq_true, decide_eq_true_eq, decide_eq_true_eq] at h
  exact ⟨UInt8.le_iff_toNat_le.mp h.1, UInt8.le_iff_toNat_le.mp h.2⟩

theorem toNat_of_isDigitOctet {b : UInt8} (h : isDigitOctet b) : 48 ≤ b.toNat ∧ b.toNat ≤ 57 :=
  toNat_of_between h

theorem isDigitOctet_of_mem_decimalNat {n : Nat} {b : UInt8} (h : b ∈ decimalNat n) :
    isDigitOctet b := by
  obtain ⟨c, hc, rfl⟩ := List.mem_map.mp h
  have hdigit := Nat.isDigit_of_mem_toDigits (b := 10) (by omega) (by omega) hc
  rw [Char.isDigit, Bool.and_eq_true, decide_eq_true_eq, decide_eq_true_eq] at hdigit
  have hlow : 48 ≤ c.toNat := hdigit.1
  have hhigh : c.toNat ≤ 57 := hdigit.2
  have htoNat : (octet c).toNat = c.toNat := Utf8.octet_toNat (by omega)
  have h0 : (octet '0').toNat = 48 := rfl
  have h9 : (octet '9').toNat = 57 := rfl
  rw [isDigitOctet, Bool.and_eq_true, decide_eq_true_eq, decide_eq_true_eq,
    UInt8.le_iff_toNat_le, UInt8.le_iff_toNat_le]
  omega

/-- The octets that stand for themselves wherever they are in a script: printable ASCII but for
`<`. -/
def isCodeOctet (b : UInt8) : Bool := 0x20 ≤ b.toNat && b.toNat < 0x7f && b.toNat != 0x3c

/-- Whether a text is made of such octets. -/
def isCode (s : Bytes) : Bool := s.all isCodeOctet

@[simp] theorem isCode_append (s t : Bytes) : isCode (s ++ t) = (isCode s && isCode t) :=
  List.all_append

theorem avoids_of_isCode {s : Bytes} (h : isCode s) : avoids breaking s :=
  avoids_of_all (p := isCodeOctet) (by decide) h

theorem isValid_of_isCode {s : Bytes} (h : isCode s) : Utf8.isValid s := by
  refine Utf8.isValid_of_ascii (List.all_eq_true.mpr fun b hb => ?_)
  have hcode := List.all_eq_true.mp h b hb
  simp only [isCodeOctet, Bool.and_eq_true, decide_eq_true_eq] at hcode
  exact decide_eq_true (by omega)

theorem feed_notMem_of_avoids {s : Bytes} (h : avoids breaking s) : octet '\n' ∉ s :=
  fun hmem => avoids_iff.mp h _ hmem (by decide)

theorem isCode_decimalNat (n : Nat) : isCode (decimalNat n) := by
  refine List.all_eq_true.mpr fun b hb => ?_
  have hdigit := toNat_of_isDigitOctet (isDigitOctet_of_mem_decimalNat hb)
  simp only [isCodeOctet, Bool.and_eq_true, decide_eq_true_eq, bne_iff_ne]
  omega

theorem avoids_decimalNat (n : Nat) : avoids breaking (decimalNat n) :=
  avoids_of_isCode (isCode_decimalNat n)

theorem isCode_decimalInt (n : Int) : isCode (decimalInt n) := by
  cases n with
  | ofNat n => exact isCode_decimalNat n
  | negSucc n => exact isCode_decimalNat (n + 1)

namespace Decimal

theorem isCode_exponentPart (e : Int) : isCode (exponentPart e) := by
  have hdigits := isCode_decimalNat e.natAbs
  have hpadded : isCode (if (decimalNat e.natAbs).length < 2 then
      octet '0' :: decimalNat e.natAbs else decimalNat e.natAbs) := by
    split
    · exact hdigits
    · exact hdigits
  rw [exponentPart]
  split
  · exact hpadded
  · exact hpadded

/-- A numeral is made of digits, points, signs and exponents. -/
theorem isCode_layout (d : Scaled) : isCode (layout d) := by
  have hzeros (n : Nat) : isCode (List.replicate n (octet '0')) := by
    refine List.all_eq_true.mpr fun b hb => ?_
    rw [List.eq_of_mem_replicate hb]
    decide
  have hsub {t : Bytes} (ht : ∀ b ∈ t, b ∈ decimalNat (dropZeros 20 d).digits) : isCode t :=
    List.all_eq_true.mpr fun b hb => List.all_eq_true.mp (isCode_decimalNat _) b (ht b hb)
  have hpoint {t : Bytes} (ht : isCode t) : isCode (octet '.' :: t) := ht
  rw [layout]
  split
  · -- Without an exponent: zeros behind the digits, a point among them, or zeros in front of them.
    split
    · rw [isCode_append, isCode_decimalNat, hzeros, Bool.and_self]
    · split
      · rw [isCode_append, hsub fun b => List.mem_of_mem_take,
          hpoint (hsub fun b => List.mem_of_mem_drop), Bool.and_self]
      · rw [isCode_append, isCode_append, hzeros, isCode_decimalNat]
        rfl
  · -- With an exponent, and with a point if there are two digits or more.
    have hall := isCode_decimalNat (dropZeros 20 d).digits
    revert hall
    cases decimalNat (dropZeros 20 d).digits with
    | nil => exact fun _ => rfl
    | cons a rest =>
      intro hall
      rw [isCode, List.all_cons, Bool.and_eq_true] at hall
      cases rest with
      | nil => exact Bool.and_eq_true_iff.mpr ⟨hall.1, isCode_exponentPart _⟩
      | cons a' rest =>
        refine Bool.and_eq_true_iff.mpr ⟨hall.1, hpoint ?_⟩
        rw [isCode_append, isCode_exponentPart, Bool.and_true]
        exact hall.2

theorem isCode_ofFloat (x : Float) : isCode (ofFloat x) := by
  have hbody : isCode (if x == 0 then utf8 "0" else layout (shortest x)) := by
    split
    · rfl
    · exact isCode_layout _
  rw [ofFloat]
  split
  · rfl
  · split
    · split <;> rfl
    · dsimp only
      split
      · exact hbody
      · exact hbody

end Decimal

/-! ### String literals -/

theorem toNat_of_isIdentOctet {b : UInt8} (h : isIdentOctet b) :
    (48 ≤ b.toNat ∧ b.toNat ≤ 57) ∨ (65 ≤ b.toNat ∧ b.toNat ≤ 90) ∨ b.toNat = 95 ∨
      (97 ≤ b.toNat ∧ b.toNat ≤ 122) := by
  rw [isIdentOctet, isAlphaOctet, Bool.or_eq_true, Bool.or_eq_true, Bool.or_eq_true] at h
  rcases h with ((hlower | hupper) | hdigit) | hscore
  · exact Or.inr (Or.inr (Or.inr (toNat_of_between hlower)))
  · exact Or.inr (Or.inl (toNat_of_between hupper))
  · exact Or.inl (toNat_of_isDigitOctet hdigit)
  · obtain rfl := eq_of_beq hscore
    exact Or.inr (Or.inr (Or.inl rfl))

namespace ScriptString

theorem isCode_hexDigits (w n : Nat) : isCode (hexDigits w n) := by
  have hdigit : ∀ d < 16, isCode [hexDigit d] := by decide
  induction w generalizing n with
  | zero => rfl
  | succ w ih =>
    rw [hexDigits, isCode_append, ih, hdigit _ (Nat.mod_lt n (by omega)), Bool.and_self]

theorem isCode_coded (c : Char) : isCode (coded c) := by
  rw [coded, isCode_append, isCode_hexDigits]
  rfl

/-- **A character of a literal is safe**: a line feed and a `<` are written as escapes. -/
theorem avoids_char (c : Char) : avoids breaking (char c) := by
  refine char_cases (P := fun s _ => avoids breaking s) c (by decide)
    (fun _ _ => avoids_of_isCode (isCode_coded c)) fun hescape hcoded => ?_
  refine avoids_iff.mpr fun b hb hmem => ?_
  rcases List.mem_pair.mp hmem with rfl | rfl
  · obtain rfl := Utf8.eq_of_octet_mem_encode (by decide) hb
    exact hescape (by decide)
  · obtain rfl := Utf8.eq_of_octet_mem_encode (by decide) hb
    exact hcoded (by decide)

theorem isValid_char (c : Char) : Utf8.isValid (char c) := by
  have hescapes : ∀ y ∈ escapes, isCode [octet '\\', octet y.2] := by decide
  exact char_cases (P := fun s _ => Utf8.isValid s) c
    (fun y hy => isValid_of_isCode (hescapes y hy))
    (fun _ _ => isValid_of_isCode (isCode_coded c))
    fun _ _ => Utf8.isValid_iff.mpr ⟨[c], (List.append_nil _).symm⟩

end ScriptString

/-- **A literal is made of characters and code**, whatever it stands for. -/
theorem scriptString_induction {P : Bytes → Prop} (append : ∀ {s t}, P s → P t → P (s ++ t))
    (code : ∀ {s}, isCode s → P s) (char : ∀ c, P (ScriptString.char c)) (s : Bytes)
    (form : StrayForm) : P (scriptString s form) := by
  have hchar (c : Option Char) : P (ScriptString.char? form c) := by
    cases c with
    | none => exact ScriptString.stray_cases form (char _) (code (ScriptString.isCode_coded _))
    | some c => exact char c
  have hchars (cs : List (Option Char)) : P (cs.flatMap (ScriptString.char? form)) := by
    induction cs with
    | nil => exact code rfl
    | cons c cs ih =>
      rw [List.flatMap_cons]
      exact append (hchar c) ih
  have hquote : P (utf8 "\"") := code rfl
  exact append hquote (append (hchars _) hquote)

theorem avoids_scriptString (s : Bytes) (form : StrayForm) :
    avoids breaking (scriptString s form) :=
  scriptString_induction (fun hs ht => by rw [avoids_append, hs, ht, Bool.and_self])
    avoids_of_isCode ScriptString.avoids_char s form

theorem isValid_scriptString (s : Bytes) (form : StrayForm) :
    Utf8.isValid (scriptString s form) :=
  scriptString_induction Utf8.isValid_append isValid_of_isCode ScriptString.isValid_char s form

/-- The octets of identifiers stand for themselves in a literal. -/
theorem ScriptString.char_of_isIdentOctet {b : UInt8} (h : isIdentOctet b) :
    ScriptString.char (Char.ofNat b.toNat) = [b] := by
  have hrange := toNat_of_isIdentOctet h
  have hc : (Char.ofNat b.toNat).toNat = b.toNat := Utf8.toNat_ofNat_of_lt (by omega)
  have hne (d : Char) (hd : d.toNat ≠ b.toNat) : Char.ofNat b.toNat ≠ d := by
    rintro hcd
    rw [← hcd, hc] at hd
    exact hd rfl
  have hquote : Char.ofNat b.toNat ≠ '"' := hne _ (show 34 ≠ b.toNat by omega)
  have hslash : Char.ofNat b.toNat ≠ '\\' := hne _ (show 92 ≠ b.toNat by omega)
  have hfeed : Char.ofNat b.toNat ≠ '\n' := hne _ (show 10 ≠ b.toNat by omega)
  have hreturn : Char.ofNat b.toNat ≠ '\r' := hne _ (show 13 ≠ b.toNat by omega)
  have htab : Char.ofNat b.toNat ≠ '\t' := hne _ (show 9 ≠ b.toNat by omega)
  have hlt : Char.ofNat b.toNat ≠ '<' := hne _ (show 60 ≠ b.toNat by omega)
  have hgt : Char.ofNat b.toNat ≠ '>' := hne _ (show 62 ≠ b.toNat by omega)
  have hamp : Char.ofNat b.toNat ≠ '&' := hne _ (show 38 ≠ b.toNat by omega)
  rw [char, if_neg (not_or.mpr ⟨hquote, hslash⟩), if_neg hfeed, if_neg hreturn, if_neg htab, hc,
    if_neg (by omega), if_neg (by omega), if_neg, Utf8.encode_ofNat (by omega)]
  rintro (hb | hb | hb | hb | hb | hb)
  · omega
  · exact hlt hb
  · exact hgt hb
  · exact hamp hb
  · omega
  · omega

theorem forall_mem_isIdentOctet_of_isBinding {x : Bytes} (h : isBinding x) :
    ∀ b ∈ x, isIdentOctet b := by
  refine forall_mem_of_isWord (fun b hb => ?_) (fun b hb => hb) h
  rw [isBindingStart, Bool.or_eq_true] at hb
  rcases hb with hb | hb <;> simp [isIdentOctet, isAlphaOctet, hb]

/-- **The literal of a name** is the name in quotation marks. -/
theorem scriptString_of_isBinding {x : Bytes} (h : isBinding x) :
    scriptString x = utf8 "\"" ++ x ++ utf8 "\"" := by
  have hident := forall_mem_isIdentOctet_of_isBinding h
  have hascii : ∀ b ∈ x, b.toNat < 0x80 := by
    intro b hb
    have hrange := toNat_of_isIdentOctet (hident b hb)
    omega
  have hchars : (Utf8.lossy x).flatMap ScriptString.char = x := by
    rw [Utf8.lossy, Utf8.chars_of_ascii hascii, List.map_map, List.flatMap_map]
    clear hascii h
    induction x with
    | nil => rfl
    | cons b x ih =>
      rw [List.forall_mem_cons] at hident
      rw [List.flatMap_cons, ih hident.2]
      exact congrArg (· ++ x) (ScriptString.char_of_isIdentOctet hident.1)
  rw [scriptString_eq, hchars]
  rfl

/-! ### Statements -/

section Values

variable {P : Bytes → Prop} (append : ∀ {s t}, P s → P t → P (s ++ t))
  (code : ∀ {s}, isCode s → P s)

include code

theorem Literal.text_of_ofTerm? {form : StrayForm} (string : ∀ s, P (scriptString s form))
    {t : Expression.Term} {l : Literal} (h : ofTerm? t form = some l) : P l.text := by
  rw [ofTerm?.eq_def] at h
  split at h
  all_goals try obtain rfl := Option.some.inj h
  · exact code (isCode_decimalInt _)
  · exact code (isCode_decimalInt _)
  · exact code (isCode_decimalInt _)
  · exact code (Decimal.isCode_ofFloat _)
  · exact code (Decimal.isCode_ofFloat _)
  · exact code (Decimal.isCode_ofFloat _)
  · exact string _
  · rename_i b
    cases b <;> exact code rfl
  · exact absurd h (by simp)

variable (string : ∀ s, P (scriptString s))

include append string

theorem Action.stateReference_induction (x : Bytes) : P (stateReference x) :=
  append (append (code rfl) (string x)) (code rfl)

/-- **The value of a statement is written anew**, of code and string literals, whatever the
statement is made of. -/
theorem Statement.valueExpression_induction (body : Bytes) : P (ofBody body).valueExpression := by
  have hadjusted (x : Bytes) {op : Bytes} (hop : isCode op) (d : Int64) :
      P (Action.stateReference x ++ op ++ decimalInt d.toInt) :=
    append (append (Action.stateReference_induction append code string x) (code hop))
      (code (isCode_decimalInt _))
  have haction {text : Bytes} {a : Action} (h : action? text = some a) : P a.valueExpression := by
    rw [action?] at h
    split at h
    · exact absurd h (by simp)
    · split at h
      · rename_i target l _ hl
        obtain ⟨term, -, hterm⟩ := Option.bind_eq_some_iff.mp hl
        rw [actionOf?.eq_def] at h
        split at h
        · obtain rfl := Option.some.inj h
          exact Literal.text_of_ofTerm? code string hterm
        · obtain rfl := Option.some.inj h
          exact hadjusted target rfl _
        · obtain rfl := Option.some.inj h
          exact hadjusted target rfl _
        · exact absurd h (by simp)
      · exact absurd h (by simp)
  rw [ofBody, valueExpression]
  cases h : action? (dropSemicolon body.trim).trim with
  | none => exact code rfl
  | some a => exact haction h

end Values

theorem Action.isValid_stateReference (x : Bytes) : Utf8.isValid (stateReference x) :=
  stateReference_induction Utf8.isValid_append isValid_of_isCode (isValid_scriptString · .plain) x

/-- **The value of a statement is safe.** -/
theorem Statement.avoids_valueExpression (body : Bytes) :
    avoids breaking (ofBody body).valueExpression :=
  valueExpression_induction (fun hs ht => by rw [avoids_append, hs, ht, Bool.and_self])
    avoids_of_isCode (avoids_scriptString · .plain) body

/-- The value of a statement is well-formed. -/
theorem Statement.isValid_valueExpression (body : Bytes) :
    Utf8.isValid (ofBody body).valueExpression :=
  valueExpression_induction Utf8.isValid_append isValid_of_isCode (isValid_scriptString · .plain)
    body

end LiveMarkup

import LiveMarkup.Proofs.Expression.Blanks
import LiveMarkup.Proofs.Live.Events

/-!
# Canonical literals

A literal can be written in many ways: an integer in four bases and with a sign, a string between
three kinds of quotes and with escapes. A statement keeps it in one form, which can stand in a
script wherever it is put: no character of it is one that string literals write in hexadecimal
(`LiveMarkup.Literal.isInline_text`). The form evaluates to what was written, but for a string that
is not well-formed, whose stray octets are replaced in it.

The form is read as the literal it is the form of (`LiveMarkup.Literal.parse?_text`), if the
replacement character is written for a stray octet as it is elsewhere. In hexadecimal it is read as
another literal, which is the form of itself (`LiveMarkup.Literal.ofString_repair_eq_iff`).

The sign of an integer is worked out in 64 bits, and the result is that of unbounded integers, since
no numeral is as large as the least integer would need.
-/

namespace LiveMarkup

/-! ### Characters of a literal -/

/-- **A text can stand in a script wherever it is put**: it is well-formed, and no character of it
is one that string literals write in hexadecimal. -/
def IsInline (s : Bytes) : Prop :=
  ∃ cs : List Char, s = Utf8.encodeAll cs ∧ ∀ c ∈ cs, ScriptString.isCoded c = false

/-- The octets of printable ASCII characters that a string literal never writes in hexadecimal. -/
def isInlineOctet (b : UInt8) : Bool := isCodeOctet b && b.toNat != 0x3e && b.toNat != 0x26

namespace IsInline

theorem nil : IsInline [] := ⟨[], rfl, by simp⟩

theorem append {s t : Bytes} (hs : IsInline s) (ht : IsInline t) : IsInline (s ++ t) := by
  obtain ⟨cs, rfl, hcs⟩ := hs
  obtain ⟨ds, rfl, hds⟩ := ht
  exact ⟨cs ++ ds, (Utf8.encodeAll_append cs ds).symm, List.forall_mem_append.mpr ⟨hcs, hds⟩⟩

theorem of_all {s : Bytes} (h : s.all isInlineOctet) : IsInline s := by
  have hrange {b : UInt8} (hb : b ∈ s) : 0x20 ≤ b.toNat ∧ b.toNat < 0x7f ∧ b.toNat ≠ 0x3c ∧
      b.toNat ≠ 0x3e ∧ b.toNat ≠ 0x26 := by
    have hplain := List.all_eq_true.mp h b hb
    simpa [isInlineOctet, isCodeOctet, and_assoc] using hplain
  have hascii : ∀ b ∈ s, b.toNat < 0x80 := fun b hb => by
    have hb := hrange hb
    omega
  refine ⟨s.map fun b => Char.ofNat b.toNat, (Utf8.encodeAll_of_ascii hascii).symm, fun c hc => ?_⟩
  obtain ⟨b, hb, rfl⟩ := List.mem_map.mp hc
  have hchar : (Char.ofNat b.toNat).toNat = b.toNat :=
    Utf8.toNat_ofNat_of_lt (by have := hascii b hb; omega)
  have hrange := hrange hb
  refine decide_eq_false fun hcoded => ?_
  have hne {d : Char} (hd : Char.ofNat b.toNat = d) : b.toNat = d.toNat := by rw [← hchar, hd]
  rcases hcoded with h | h | h | h | h | h
  · omega
  · exact hrange.2.2.1 (hne h)
  · exact hrange.2.2.2.1 (hne h)
  · exact hrange.2.2.2.2 (hne h)
  · omega
  · omega

/-- What is said of the characters of an inline text, of its characters and of its octets. -/
theorem characters {s : Bytes} (h : IsInline s) :
    Utf8.isValid s ∧ (∀ b ∈ s, 0x20 ≤ b.toNat ∧ b ∉ [octet '<', octet '>', octet '&']) ∧
      ∀ c ∈ Utf8.lossy s, c.toNat ≠ 0x2028 ∧ c.toNat ≠ 0x2029 := by
  obtain ⟨cs, rfl, hcs⟩ := h
  have hplain {c : Char} (hc : c ∈ cs) : ¬(c.toNat < 0x20 ∨ c = '<' ∨ c = '>' ∨ c = '&' ∨
      c.toNat = 0x2028 ∨ c.toNat = 0x2029) := of_decide_eq_false (hcs c hc)
  refine ⟨Utf8.isValid_iff.mpr ⟨cs, rfl⟩, fun b hb => ?_, fun c hc => ?_⟩
  · obtain ⟨c, hc, hbc⟩ := List.mem_flatMap.mp hb
    have hnot := hplain hc
    constructor
    · by_contra hlt
      -- An octet of ASCII is a character of its own.
      have hchar := (Utf8.mem_encode hbc (by omega)).1
      omega
    · intro hmem
      rcases List.mem_cons.mp hmem with rfl | hmem
      · exact hnot (by simp [Utf8.eq_of_octet_mem_encode (by decide) hbc])
      rcases List.mem_pair.mp hmem with rfl | rfl
      · exact hnot (by simp [Utf8.eq_of_octet_mem_encode (by decide) hbc])
      · exact hnot (by simp [Utf8.eq_of_octet_mem_encode (by decide) hbc])
  · rw [Utf8.lossy_encodeAll] at hc
    have hnot := hplain hc
    exact ⟨fun h => hnot (by simp [h]), fun h => hnot (by simp [h])⟩

end IsInline

theorem isInline_decimalNat (n : Nat) : IsInline (decimalNat n) := by
  refine IsInline.of_all (List.all_eq_true.mpr fun b hb => ?_)
  have hrange := toNat_of_isDigitOctet (isDigitOctet_of_mem_decimalNat hb)
  simp only [isInlineOctet, isCodeOctet, Bool.and_eq_true, decide_eq_true_eq, bne_iff_ne]
  omega

theorem isInline_decimalInt (n : Int) : IsInline (decimalInt n) := by
  cases n with
  | ofNat n => exact isInline_decimalNat n
  | negSucc n =>
    have hsign : IsInline [octet '-'] := IsInline.of_all (by decide)
    exact hsign.append (isInline_decimalNat (n + 1))

namespace ScriptString

theorem isInline_coded (c : Char) : IsInline (coded c) := by
  have hdigit : ∀ d < 16, [hexDigit d].all isInlineOctet := by decide
  have hdigits (w n : Nat) : IsInline (hexDigits w n) := by
    induction w generalizing n with
    | zero => exact IsInline.nil
    | succ w ih =>
      exact (ih (n / 16)).append (IsInline.of_all (hdigit _ (Nat.mod_lt n (by omega))))
  have hmark : IsInline (utf8 "\\u") := IsInline.of_all (by decide)
  exact hmark.append (hdigits 4 c.toNat)

theorem isInline_char (c : Char) : IsInline (char c) := by
  refine char_cases (P := fun s _ => IsInline s) c (fun y hy => IsInline.of_all ?_)
    (fun _ _ => isInline_coded c) fun _ hcoded => ⟨[c], (List.append_nil _).symm, by
      simpa using hcoded⟩
  have hescapes : ∀ y ∈ escapes, [octet '\\', octet y.2].all isInlineOctet := by decide
  exact hescapes y hy

end ScriptString

/-- **A string literal is inline**, whatever it is written for. -/
theorem isInline_scriptString (s : Bytes) (form : StrayForm) : IsInline (scriptString s form) := by
  have hquote : IsInline [octet '"'] := IsInline.of_all (by decide)
  have hchar (c : Option Char) : IsInline (ScriptString.char? form c) := by
    cases c with
    | none =>
      exact ScriptString.stray_cases form (ScriptString.isInline_char _)
        (ScriptString.isInline_coded _)
    | some c => exact ScriptString.isInline_char c
  have hchars (cs : List (Option Char)) : IsInline (cs.flatMap (ScriptString.char? form)) := by
    induction cs with
    | nil => exact IsInline.nil
    | cons c cs ih => exact (hchar c).append ih
  exact hquote.append ((hchars (Utf8.chars s)).append hquote)

/-! ### Reading a canonical form -/

theorem Bytes.trim_of_forall_isSolid {s : Bytes} (h : ∀ b ∈ s, isSolid b) : s.trim = s := by
  cases s with
  | nil => rw [trim, trimStart_nil, trimEnd_nil]
  | cons b s =>
    obtain ⟨e, he⟩ : ∃ e, (b :: s).getLast? = some e := ⟨_, List.getLast?_cons⟩
    have hvalid : Utf8.isValid (b :: s) := by
      refine Utf8.isValid_of_ascii (List.all_eq_true.mpr fun c hc => ?_)
      have hsolid := h c hc
      rw [isSolid, Bool.and_eq_true] at hsolid
      exact hsolid.1
    exact trim_of_solid hvalid rfl (h b List.mem_cons_self) he (h e (List.mem_of_getLast? he))

theorem isDigitOctet_of_mem_decimalInt {n : Int} {b : UInt8} (h : b ∈ decimalInt n) :
    isDigitOctet b ∨ b = octet '-' := by
  cases n with
  | ofNat k => exact Or.inl (isDigitOctet_of_mem_decimalNat h)
  | negSucc k =>
    rcases List.mem_cons.mp h with rfl | h
    · exact Or.inr rfl
    · exact Or.inl (isDigitOctet_of_mem_decimalNat h)

theorem isSolid_of_mem_decimalInt {n : Int} {b : UInt8} (h : b ∈ decimalInt n) : isSolid b := by
  have hdigit : ∀ k ≤ 57, 48 ≤ k → !isBlank (Char.ofNat k) := by decide
  rcases isDigitOctet_of_mem_decimalInt h with hb | rfl
  · have hrange := toNat_of_isDigitOctet hb
    rw [isSolid, Bool.and_eq_true, decide_eq_true_eq]
    exact ⟨by omega, hdigit _ hrange.2 hrange.1⟩
  · decide

theorem trim_scriptString (s : Bytes) (form : StrayForm) :
    (scriptString s form).trim = scriptString s form := by
  have hlast : (scriptString s form).getLast? = some (octet '"') := by
    rw [scriptString, ← List.cons_append, List.getLast?_concat]
  exact Bytes.trim_of_solid (isValid_scriptString s form) rfl (by decide) hlast (by decide)

/-- A string literal is the same for a text and for the text repaired, if the replacement character
is written in one way only. -/
theorem scriptString_repair (s : Bytes) : scriptString (Utf8.repair s) = scriptString s := by
  rw [scriptString_eq, Utf8.repair, Utf8.lossy_encodeAll, scriptString_eq]

/-- Stray octets written in hexadecimal take three octets more each. -/
theorem length_scriptString_coded (s : Bytes) :
    (scriptString s .coded).length =
      (scriptString s).length + 3 * (Utf8.chars s).countP Option.isNone := by
  have hchars (cs : List (Option Char)) :
      (cs.flatMap (ScriptString.char? .coded)).length =
        (cs.flatMap (ScriptString.char? .plain)).length + 3 * cs.countP Option.isNone := by
    have hstray : (ScriptString.stray .coded).length = (ScriptString.stray .plain).length + 3 := by
      decide
    induction cs with
    | nil => rfl
    | cons c cs ih =>
      rw [List.flatMap_cons, List.flatMap_cons, List.length_append, List.length_append, ih,
        List.countP_cons]
      cases c with
      | none =>
        rw [ScriptString.char?, ScriptString.char?, hstray, if_pos Option.isNone_none]
        omega
      | some c =>
        rw [ScriptString.char?, ScriptString.char?, if_neg (by simp)]
        omega
  rw [scriptString, scriptString, List.length_cons, List.length_cons, List.length_append,
    List.length_append, hchars]
  omega

/-- Without stray octets the two forms are one. -/
theorem scriptString_of_isValid {s : Bytes} (hs : Utf8.isValid s) (form : StrayForm) :
    scriptString s form = scriptString s := by
  have hchar : ∀ c ∈ Utf8.chars s,
      ScriptString.char? form c = ScriptString.char? .plain c := by
    intro c hc
    obtain ⟨d, rfl⟩ := Option.isSome_iff_exists.mp (List.all_eq_true.mp hs c hc)
    rfl
  rw [scriptString, List.flatMap_congr hchar, scriptString]

/-- The integer that a term is written for, with its sign, among all integers. -/
def Expression.Term.signed? : Expression.Term → Option Int
  | .int n | .unary .identity (.int n) => some n.toInt
  | .unary .negate (.int n) => some (-n.toInt)
  | _ => none

namespace Literal

open Expression

theorem ofTerm?_of_constant? {e : Term} {d : Int64} (h : e.constant? = some (.int d))
    (form : StrayForm) : ofTerm? e form = some (ofInt d) := by
  rw [Term.constant?.eq_def] at h
  split at h
  all_goals cases h
  all_goals rfl

theorem parse?_ofInt {d : Int64} (hd : d ≠ Int64.minValue) (form : StrayForm) :
    parse? (ofInt d).text form = some (ofInt d) := by
  obtain ⟨cs, ts, e, hcs, htokens, he, hread⟩ := exists_numeral hd
  obtain ⟨hrest, hread⟩ := hread 0
  have htokens : tokens? (decimalInt d.toInt) = some ts := by
    rw [hcs, tokens?, Utf8.lossy_encodeAll, htokens]
  rw [parse?, ofInt, Bytes.trim_of_forall_isSolid fun b => isSolid_of_mem_decimalInt,
    parse?_of_tokens? htokens hread]
  exact ofTerm?_of_constant? he form

/-- **The form of a string is read as that of the string repaired.** -/
theorem parse?_ofString (s : Bytes) (form : StrayForm) :
    parse? (ofString s form).text form = some (ofString (Utf8.repair s) form) := by
  rw [parse?, ofString, trim_scriptString, parse?_scriptString, Option.bind_some, ofTerm?]

/-- **The two have one form** if the string is well-formed, or if stray octets are written as the
replacement character is elsewhere. -/
theorem ofString_repair_eq_iff {s : Bytes} {form : StrayForm} :
    ofString (Utf8.repair s) form = ofString s form ↔ form = .plain ∨ Utf8.isValid s := by
  have hrepaired : scriptString (Utf8.repair s) form = scriptString s :=
    (scriptString_of_isValid (Utf8.isValid_iff.mpr ⟨_, rfl⟩) form).trans (scriptString_repair s)
  rw [ofString, ofString, Literal.mk.injEq, hrepaired]
  cases form with
  | plain => exact iff_of_true ⟨rfl, rfl⟩ (Or.inl rfl)
  | coded =>
    rw [or_iff_right (by simp)]
    refine ⟨fun h => ?_, fun hs => ⟨(scriptString_of_isValid hs _).symm, rfl⟩⟩
    -- The forms are told apart by their lengths.
    have hlength := congrArg List.length h.1
    rw [length_scriptString_coded] at hlength
    have hnone : (Utf8.chars s).countP Option.isNone = 0 := by omega
    rw [Utf8.isValid, List.all_eq_true]
    intro c hc
    cases c with
    | none => exact absurd rfl (List.countP_eq_zero.mp hnone none hc)
    | some c => rfl

theorem parse?_ofBool (b : Bool) (form : StrayForm) :
    parse? (ofBool b).text form = some (ofBool b) := by
  have htrim : (ofBool b).text.trim = (ofBool b).text := by cases b <;> decide +kernel
  rw [parse?, htrim, Expression.parse?_ofBool]
  rfl

section Canonical

variable {e : Term} {l : Literal} {form : StrayForm} (he : e.isRooted)
  (h : ofTerm? e form = some l) (hfloat : ¬e.isFloat)

include h hfloat

/-- **The canonical forms**: those of the integers, of the strings and of the truth values. -/
theorem cases_of_ofTerm? {P : Literal → Constant → Prop}
    (hint : ∀ d, e.constant? = some (.int d) → P (ofInt d) (.int d))
    (hstring : ∀ s, P (ofString s form) (.string s)) (hbool : ∀ b, P (ofBool b) (.bool b)) :
    ∃ c, e.constant? = some c ∧ P l c := by
  rw [ofTerm?.eq_def] at h
  -- The first three are integers, the next three floating numbers, each with no sign or either one.
  split at h
  · cases h
    exact ⟨_, rfl, hint _ rfl⟩
  · cases h
    exact ⟨_, rfl, hint _ rfl⟩
  · cases h
    exact ⟨_, rfl, hint _ rfl⟩
  · exact absurd rfl hfloat
  · exact absurd rfl hfloat
  · exact absurd rfl hfloat
  · cases h
    exact ⟨_, rfl, hstring _⟩
  · cases h
    exact ⟨_, rfl, hbool _⟩
  · cases h

/-- **A canonical form can stand anywhere in a script.** -/
theorem isInline_text : IsInline l.text := by
  obtain ⟨-, -, hinline⟩ := cases_of_ofTerm? h hfloat (P := fun l _ => IsInline l.text)
    (fun d _ => isInline_decimalInt d.toInt) (fun s => isInline_scriptString s form)
    fun b => by cases b <;> exact IsInline.of_all (by decide)
  exact hinline

include he

/-- **A canonical form is read as the literal it is the form of**, unless a stray octet is written
in hexadecimal in it. What it is read as is read as itself. -/
theorem parse?_text : ∃ c, e.constant? = some c ∧
    ∃ l', parse? l.text form = some l' ∧ (l' = l ↔ form = .plain ∨ c.isText) ∧
      parse? l'.text form = some l' := by
  have hsame {c : Constant} (hc : c.isText) {l : Literal} (hl : parse? l.text form = some l) :
      ∃ l', parse? l.text form = some l' ∧ (l' = l ↔ form = .plain ∨ c.isText) ∧
        parse? l'.text form = some l' :=
    ⟨l, hl, iff_of_true rfl (Or.inr hc), hl⟩
  refine cases_of_ofTerm? h hfloat (P := fun l c => ∃ l', parse? l.text form = some l' ∧
    (l' = l ↔ form = .plain ∨ c.isText) ∧ parse? l'.text form = some l')
    (fun d hd => hsame rfl (parse?_ofInt (ne_minValue he hd) form)) (fun s => ?_)
    fun b => hsame rfl (parse?_ofBool b form)
  refine ⟨_, parse?_ofString s form, ofString_repair_eq_iff, ?_⟩
  -- Repairing once is enough.
  have hvalid : Utf8.isValid (Utf8.repair s) := Utf8.isValid_iff.mpr ⟨_, rfl⟩
  rw [parse?_ofString, Utf8.repair_eq_self_iff.mpr hvalid]

end Canonical

/-- **The sign of an integer is worked out without overflow**, since a numeral is never negative.
-/
theorem signed?_of_integer? {e : Term} {l : Literal} {form : StrayForm} (he : e.isRooted)
    (h : ofTerm? e form = some l) {d : Int64} (hd : l.integer? = some d) :
    e.signed? = some d.toInt ∧ d.toInt.natAbs < 2 ^ 63 := by
  have hvalue := integer?_of_ofTerm? h hd
  have hmin : d.toInt ≠ -2 ^ 63 := fun hd => ne_minValue he hvalue (Int64.toInt_inj.mp hd)
  have hlow := Int64.le_toInt d
  have hhigh := Int64.toInt_lt d
  refine ⟨?_, by omega⟩
  rw [Term.constant?.eq_def] at hvalue
  split at hvalue
  · cases hvalue
    rfl
  · cases hvalue
    rfl
  · rename_i n
    cases hvalue
    -- Only the negation could overflow, and what is negated is a numeral.
    have hn : 0 ≤ n.toInt := of_decide_eq_true he
    have hlt := Int64.toInt_lt n
    rw [Term.signed?, Int64.toInt_neg, Int.bmod_eq_of_le (by omega) (by omega)]
  all_goals cases hvalue

/-- **The canonical form of a literal.** A literal that is not a floating number is kept in a form
that is read as a literal again. It is the same literal, and stays so, unless it is a string that is
not well-formed and stray octets are written in hexadecimal; then it is the same from the next
reading on. With every evaluator that is as documented, the form evaluates to what the literal does,
with the stray octets of a string replaced; so it evaluates to the same exactly if the literal is a
text or no string at all. An integer is the one that is written, among all integers. The form is
well-formed and has no control character, no character of markup and no line separator.

And the form of a text is read as the text. -/
theorem canonical_form (s : Bytes) (form : StrayForm) :
    (∀ (e : Term) (l : Literal), Expression.parse? s.trim = some e →
      parse? s form = some l → ¬e.isFloat →
      ∃ c, e.constant? = some c ∧
      (∃ l', parse? l.text form = some l' ∧ (l' = l ↔ form = .plain ∨ c.isText) ∧
        parse? l'.text form = some l') ∧
      (∀ E : Evaluator, E.Documented → ∀ state,
        E.evaluate? state s = some (E.constant c) ∧
        E.evaluate? state l.text = some (E.constant c.repaired) ∧
        (E.evaluate? state l.text = E.evaluate? state s ↔ c.isText)) ∧
      (∀ d, l.integer? = some d →
        e.signed? = some d.toInt ∧ d.toInt.natAbs < 2 ^ 63 ∧ l.text = decimalInt d.toInt) ∧
      Utf8.isValid l.text ∧
      (∀ b ∈ l.text, 0x20 ≤ b.toNat ∧ b ∉ [octet '<', octet '>', octet '&']) ∧
      ∀ c ∈ Utf8.lossy l.text, c.toNat ≠ 0x2028 ∧ c.toNat ≠ 0x2029) ∧
    (Utf8.isValid s →
      parse? (scriptString s form) form = some ⟨scriptString s form, none⟩ ∧
      ∀ E : Evaluator, E.Documented → ∀ state,
        E.evaluate? state (scriptString s form) = some (E.constant (.string s))) := by
  refine ⟨fun e l he hl hfloat => ?_, fun hs => ⟨?_, fun E hE state => ?_⟩⟩
  · have hterm : ofTerm? e form = some l := by rwa [parse?, he, Option.bind_some] at hl
    have hrooted := isRooted_of_parse? he
    obtain ⟨c, hc, hread⟩ := parse?_text hrooted hterm hfloat
    refine ⟨c, hc, hread, fun E hE state => ?_, fun d hd => ?_,
      (isInline_text hterm hfloat).characters⟩
    · have hwritten := hE.literal _ _ _ (parse?_of_parse?_trim he) hc state
      have hform := evaluate?_text hE hrooted hterm hc state
      refine ⟨hwritten, hform, ?_⟩
      rw [hwritten, hform, Option.some.injEq, hE.constants.eq_iff, Constant.repaired_eq_self_iff]
    · obtain ⟨hsigned, hlt⟩ := signed?_of_integer? hrooted hterm hd
      have hform := ofTerm?_of_constant? (integer?_of_ofTerm? hterm hd) form
      obtain rfl := Option.some.inj (hterm.symm.trans hform)
      exact ⟨hsigned, hlt, rfl⟩
  · have hread := parse?_ofString s form
    rwa [Utf8.repair_eq_self_iff.mpr hs] at hread
  · have hparse := parse?_scriptString s form
    rw [Utf8.repair_eq_self_iff.mpr hs] at hparse
    exact hE.literal _ _ _ hparse rfl state

/-- A negative integer in hexadecimal, with a separator in it and spaces around it. -/
theorem canonical_form_hexadecimal :
    parse? (utf8 " -0x1_0 ") = some ⟨utf8 "-16", some (-16)⟩ ∧
      parse? (utf8 "-16") = some ⟨utf8 "-16", some (-16)⟩ ∧
      ∀ state, evaluator.evaluate? state (utf8 " -0x1_0 ") = some (.int (-16)) ∧
        evaluator.evaluate? state (utf8 "-16") = some (.int (-16)) := by
  have htrim : Bytes.trim (utf8 " -0x1_0 ") = utf8 "-0x1_0" := by decide +kernel
  have hnumeral : Numeral.term? (utf8 "0x1_0") = some (.int 16) := rfl
  have he : Expression.parse? (Bytes.trim (utf8 " -0x1_0 ")) =
      some (.unary .negate (.int 16)) := by
    rw [htrim]
    exact parse?_of_tokens? (by decide +kernel) (expression?_negative hnumeral 0)
  have hl : parse? (utf8 " -0x1_0 ") = some ⟨utf8 "-16", some (-16)⟩ := by
    rw [parse?, he]
    decide +kernel
  obtain ⟨c, hc, ⟨l', hread, hsame, -⟩, heval, -⟩ :=
    (canonical_form _ .plain).1 _ _ he hl (by decide)
  obtain rfl : Constant.int (-16) = c := Option.some.inj hc
  obtain rfl := hsame.mpr (Or.inl rfl)
  exact ⟨hl, hread, fun state =>
    have hvalues := heval evaluator documented_evaluator state
    ⟨hvalues.1, hvalues.2.1⟩⟩

/-- **A string whose canonical form means something else**: its value is the octet 255, and that of
the form the replacement character. If the replacement character is written in hexadecimal, the form
is not read as the same literal either. -/
theorem canonical_form_of_octet :
    let s := utf8 "\"\\U800000FF\""
    (∃ l, parse? s .plain = some l ∧ parse? l.text .plain = some l ∧
      ∀ state, evaluator.evaluate? state s = some (.string [0xff]) ∧
        evaluator.evaluate? state l.text = some (.string [0xef, 0xbf, 0xbd])) ∧
    ∃ l, parse? s .coded = some l ∧ parse? l.text .coded ≠ some l ∧
      ∀ state, evaluator.evaluate? state s = some (.string [0xff]) ∧
        evaluator.evaluate? state l.text = some (.string [0xef, 0xbf, 0xbd]) := by
  intro s
  have htrim : s.trim = s := by decide +kernel
  have hparse : Expression.parse? s = some (.string [0xff]) := Statement.ofBody_octet.2.2
  have hrepair : Utf8.repair [0xff] = [0xef, 0xbf, 0xbd] := by decide +kernel
  have hinvalid : Utf8.isValid [0xff] = false := by decide +kernel
  have hform (form : StrayForm) : parse? s form = some (ofString [0xff] form) := by
    rw [parse?, htrim, hparse]
    rfl
  have hread (form : StrayForm) :
      parse? (ofString [0xff] form).text form = some (ofString [0xff] form) ↔ form = .plain := by
    rw [parse?_ofString, Option.some.injEq, ofString_repair_eq_iff, hinvalid]
    simp
  have hvalues (form : StrayForm) (state) :
      evaluator.evaluate? state s = some (.string [0xff]) ∧
        evaluator.evaluate? state (ofString [0xff] form).text =
          some (.string [0xef, 0xbf, 0xbd]) := by
    have hwritten := parse?_scriptString [0xff] form
    rw [hrepair] at hwritten
    exact ⟨evaluate?_of_constant? hparse rfl state, evaluate?_of_constant? hwritten rfl state⟩
  refine ⟨⟨_, hform .plain, (hread .plain).mpr rfl, hvalues .plain⟩,
    ⟨_, hform .coded, fun h => ?_, hvalues .coded⟩⟩
  cases (hread .coded).mp h

end Literal

end LiveMarkup

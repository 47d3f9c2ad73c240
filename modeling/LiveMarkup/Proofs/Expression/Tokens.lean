import LiveMarkup.Expression.Parser
import LiveMarkup.Proofs.Statement
import Mathlib.Algebra.Group.Nat.Defs

/-!
# Tokens of what is written

A string literal, a numeral and a reference to a state are written as texts, and the lexer reads the
texts back. A string literal is one token, whose content is the text with its stray octets replaced
(`LiveMarkup.Expression.lexes_scriptString`); the escapes of its characters are undone one by one. A
numeral is one token, and its value is the number (`LiveMarkup.Expression.term?_decimalNat`).

Tokens are read from characters, so the statements are about texts as encodings of characters:
`LiveMarkup.Expression.Lexes` is a text that gives certain tokens whatever follows it.
-/

namespace LiveMarkup

namespace Utf8

theorem encodeAll_append (cs ds : List Char) :
    encodeAll (cs ++ ds) = encodeAll cs ++ encodeAll ds :=
  List.flatMap_append

theorem lossy_encodeAll (cs : List Char) : lossy (encodeAll cs) = cs := by
  rw [lossy, chars_encodeAll, List.map_map]
  exact List.map_id cs

theorem encodeAll_of_ascii {s : Bytes} (h : ∀ b ∈ s, b.toNat < 0x80) :
    encodeAll (s.map fun b => Char.ofNat b.toNat) = s := by
  induction s with
  | nil => rfl
  | cons b s ih =>
    rw [List.forall_mem_cons] at h
    rw [List.map_cons, encodeAll_cons, encode_ofNat h.1, ih h.2, List.singleton_append]

theorem repair_encodeAll (cs : List Char) : repair (encodeAll cs) = encodeAll cs := by
  rw [repair, lossy_encodeAll]

/-- **Repairing changes a text only if it is not well-formed.** -/
theorem repair_eq_self_iff {s : Bytes} : repair s = s ↔ isValid s := by
  constructor
  · intro h
    exact isValid_iff.mpr ⟨lossy s, h.symm⟩
  · intro h
    obtain ⟨cs, rfl⟩ := isValid_iff.mp h
    exact repair_encodeAll cs

end Utf8

namespace Expression

/-! ### String literals -/

theorem stringBody?_escape {q : Char} (hq : q ≠ '\\') {cs r : List Char} {o : Bytes}
    (h : stringEscape? q cs = some (o, r)) :
    stringBody? q ('\\' :: cs) = (stringBody? q r).map fun y => (o ++ y.1, y.2) := by
  rw [stringBody?, if_neg hq.symm, if_neg (by decide), if_pos rfl]
  split
  · rename_i hnone
    rw [h] at hnone
    cases hnone
  · rename_i o' r' hsome
    rw [h] at hsome
    cases hsome
    rfl

theorem stringBody?_plain {q c : Char} (hq : c ≠ q) (hslash : c ≠ '\\') (hfeed : c ≠ '\n')
    (hreturn : c ≠ '\r') (r : List Char) :
    stringBody? q (c :: r) = (stringBody? q r).map fun y => (Utf8.encode c ++ y.1, y.2) := by
  rw [stringBody?, if_neg hq, if_neg hfeed, if_neg hslash, if_neg hreturn]

theorem hexChars?_succ {w v u d : Nat} {cs r : List Char} {c : Char}
    (h : hexChars? w v cs = some (u, c :: r)) (hc : hexValue? (asciiOctet c) = some d) :
    hexChars? (w + 1) v cs = some (u * 16 + d, r) := by
  -- The digits are read from the left, and the new one is the last: the induction goes through
  -- those in front of it.
  induction w generalizing v cs with
  | zero =>
    obtain ⟨rfl, rfl⟩ : v = u ∧ cs = c :: r := by simpa [hexChars?] using h
    rw [hexChars?, hc]
    rfl
  | succ w ih =>
    cases cs with
    | nil => exact absurd h (by simp [hexChars?])
    | cons c' cs =>
      rw [hexChars?] at h ⊢
      cases hd : hexValue? (asciiOctet c') with
      | none => exact absurd h (by simp [hd])
      | some d' =>
        rw [hd] at h
        exact ih h

/-- **The digits of a number are read as the number.** -/
theorem hexChars?_hexDigits {w n : Nat} (hn : n < 16 ^ w) (r : List Char) :
    hexChars? w 0 ((hexDigits w n).map (fun b => Char.ofNat b.toNat) ++ r) = some (n, r) := by
  have hdigit : ∀ d < 16,
      hexValue? (asciiOctet (Char.ofNat (hexDigit d).toNat)) = some d := by decide
  induction w generalizing n r with
  | zero =>
    obtain rfl : n = 0 := by omega
    rfl
  | succ w ih =>
    have hlt : n / 16 < 16 ^ w := by
      rw [Nat.pow_succ] at hn
      omega
    rw [hexDigits, List.map_append, List.append_assoc]
    have h := hexChars?_succ (r := r) (ih hlt _) (hdigit (n % 16) (Nat.mod_lt n (by omega)))
    rw [show n / 16 * 16 + n % 16 = n by omega] at h
    exact h

theorem toNat_lt_of_mem_hexDigits {w n : Nat} {b : UInt8} (h : b ∈ hexDigits w n) :
    b.toNat < 0x80 := by
  have hdigit : ∀ d < 16, (hexDigit d).toNat < 0x80 := by decide
  induction w generalizing n with
  | zero => exact absurd h (by simp [hexDigits])
  | succ w ih =>
    rw [hexDigits, List.mem_append, List.mem_singleton] at h
    rcases h with h | rfl
    · exact ih h
    · exact hdigit _ (Nat.mod_lt n (by omega))

/-- Characters that are written as a text are read as one character in a string literal. -/
def Spells (s : Bytes) (c : Char) : Prop :=
  ∃ cs : List Char, s = Utf8.encodeAll cs ∧ ∀ r : List Char,
    stringBody? '"' (cs ++ r) = (stringBody? '"' r).map fun y => (Utf8.encode c ++ y.1, y.2)

theorem spells_escape {c d : Char} (hd : d.toNat < 0x80)
    (h : ∀ r, stringEscape? '"' (d :: r) = some (Utf8.encode c, r)) :
    Spells [octet '\\', octet d] c := by
  refine ⟨['\\', d], ?_, fun r => stringBody?_escape (by decide) (h r)⟩
  rw [Utf8.encodeAll_cons, Utf8.encodeAll_cons, Utf8.encode_of_lt hd]
  rfl

theorem spells_coded {c : Char} (hc : c.toNat < 0x10000) : Spells (ScriptString.coded c) c := by
  have hscalar : Escape.isScalar c.toNat := by
    rw [Escape.isScalar, Bool.or_eq_true, Bool.and_eq_true, decide_eq_true_eq, decide_eq_true_eq,
      decide_eq_true_eq]
    exact c.valid
  have hcode : codeOctets? c.toNat = some (Utf8.encode c) := by
    rw [codeOctets?, if_pos hscalar, Char.ofNat_toNat]
  have hread (cs : List Char) : stringEscape? '"' ('u' :: cs) =
      (hexChars? 4 0 cs).bind fun y => (codeOctets? y.1).map fun o => (o, y.2) := by
    have hcontrol : Escape.control? (asciiOctet 'u') = none := by decide
    have hwidth : Escape.hexWidth? (asciiOctet 'u') = some 4 := by decide
    rw [stringEscape?, hcontrol, hwidth]
    dsimp only
    cases hexChars? 4 0 cs <;> rfl
  refine ⟨'\\' :: 'u' :: (hexDigits 4 c.toNat).map fun b => Char.ofNat b.toNat, ?_, fun r =>
    stringBody?_escape (by decide) ?_⟩
  · rw [ScriptString.coded, Utf8.encodeAll_cons, Utf8.encodeAll_cons,
      Utf8.encodeAll_of_ascii fun b => toNat_lt_of_mem_hexDigits]
    rfl
  · refine (hread ((hexDigits 4 c.toNat).map (fun b => Char.ofNat b.toNat) ++ r)).trans ?_
    rw [hexChars?_hexDigits (by omega), Option.bind_some, hcode]
    rfl

/-- **The escape of a character in a string literal is undone.** -/
theorem spells_char (c : Char) : Spells (ScriptString.char c) c := by
  refine ScriptString.char_cases c (fun y hy => ?_)
    (fun _ hcoded => spells_coded ?_) fun hescape hcoded => ?_
  · -- A character with an escape of its own.
    simp only [ScriptString.escapes, List.mem_cons, List.not_mem_nil, or_false] at hy
    rcases hy with rfl | rfl | rfl | rfl | rfl | rfl | rfl
    all_goals exact spells_escape (by decide) fun r => rfl
  · have hlt := ScriptString.toNat_lt_of_isCoded hcoded
    omega
  · -- A character that stands for itself, and so is none of those that end or break a literal.
    have hne {d : Char} (hd : d ∈ ScriptString.escapes.map Prod.fst) : c ≠ d := by
      rintro rfl
      exact hescape hd
    refine ⟨[c], (List.append_nil _).symm, fun r => ?_⟩
    exact stringBody?_plain (hne (by decide)) (hne (by decide)) (hne (by decide))
      (hne (by decide)) r

/-- So is what is written for a stray octet, as the replacement character. -/
theorem spells_char? (form : StrayForm) (c : Option Char) :
    Spells (ScriptString.char? form c) (c.getD Utf8.replacement) := by
  cases c with
  | none =>
    exact ScriptString.stray_cases (P := fun s => Spells s Utf8.replacement) form (spells_char _)
      (spells_coded (by decide))
  | some c => exact spells_char c

/-- The characters between the quotation marks of a literal. -/
theorem exists_stringBody? (form : StrayForm) (ds : List (Option Char)) : ∃ cs : List Char,
    ds.flatMap (ScriptString.char? form) = Utf8.encodeAll cs ∧
      ∀ r : List Char, stringBody? '"' (cs ++ '"' :: r) =
        some (Utf8.encodeAll (ds.map fun d => d.getD Utf8.replacement), r) := by
  induction ds with
  | nil =>
    refine ⟨[], rfl, fun r => ?_⟩
    rw [List.nil_append, stringBody?, if_pos rfl]
    rfl
  | cons d ds ih =>
    obtain ⟨cs, hcs, hbody⟩ := ih
    obtain ⟨cs', hcs', hchar⟩ := spells_char? form d
    refine ⟨cs' ++ cs, ?_, fun r => ?_⟩
    · rw [List.flatMap_cons, hcs, hcs', Utf8.encodeAll_append]
    · rw [List.append_assoc, hchar, hbody]
      rfl

/-! ### Texts that give tokens -/

theorem charTokens?_of_step? {c : Char} {cs rest : List Char} {o : Option Token}
    (h : (step? c cs).map (fun s => (s.token, s.rest)) = some (o, rest)) :
    charTokens? (c :: cs) = (charTokens? rest).map (o.toList ++ ·) := by
  obtain ⟨s, hs, hparts⟩ := Option.map_eq_some_iff.mp h
  obtain ⟨rfl, rfl⟩ : s.token = o ∧ s.rest = rest := by simpa using hparts
  rw [charTokens?, hs]
  dsimp only
  cases charTokens? s.rest <;> rfl

/-- **A text gives certain tokens**, whatever follows it. -/
def Lexes (s : Bytes) (ts : List Token) : Prop :=
  ∃ cs : List Char, s = Utf8.encodeAll cs ∧
    ∀ r : List Char, charTokens? (cs ++ r) = (charTokens? r).map (ts ++ ·)

namespace Lexes

variable {s t : Bytes} {ts us : List Token}

theorem append (hs : Lexes s ts) (ht : Lexes t us) : Lexes (s ++ t) (ts ++ us) := by
  obtain ⟨cs, rfl, hcs⟩ := hs
  obtain ⟨ds, rfl, hds⟩ := ht
  refine ⟨cs ++ ds, (Utf8.encodeAll_append cs ds).symm, fun r => ?_⟩
  rw [List.append_assoc, hcs, hds, Option.map_map]
  congr 1
  funext vs
  exact (List.append_assoc ts us vs).symm

/-- The tokens of a text with characters behind it. -/
theorem tokens?_append (hs : Lexes s ts) (cs : List Char) :
    tokens? (s ++ Utf8.encodeAll cs) = (charTokens? cs).map (ts ++ ·) := by
  obtain ⟨ds, rfl, hds⟩ := hs
  rw [tokens?, ← Utf8.encodeAll_append, Utf8.lossy_encodeAll, hds]

theorem tokens? (hs : Lexes s ts) : Expression.tokens? s = some ts := by
  have h := hs.tokens?_append []
  rw [Utf8.encodeAll_nil, List.append_nil, charTokens?] at h
  rw [h, Option.map_some, List.append_nil]

/-- One step of the lexer that does not look at what follows. -/
theorem of_step? {c : Char} {r : List Char} {o : Option Token}
    (h : ∀ rest, (step? c (r ++ rest)).map (fun s => (s.token, s.rest)) = some (o, rest)) :
    Lexes (Utf8.encodeAll (c :: r)) o.toList :=
  ⟨c :: r, rfl, fun rest => charTokens?_of_step? (h rest)⟩

end Lexes

/-- **A string literal is one token**, and its content is the text that it is written for, repaired.
-/
theorem lexes_scriptString (s : Bytes) (form : StrayForm) :
    Lexes (scriptString s form) [.string (Utf8.repair s)] := by
  obtain ⟨cs, hcs, hbody⟩ := exists_stringBody? form (Utf8.chars s)
  have hstep {ds r : List Char} {o : Bytes} (h : stringBody? '"' ds = some (o, r)) :
      (step? '"' ds).map (fun s => (s.token, s.rest)) = some (some (.string o), r) := by
    rw [step?.eq_def, if_neg (by decide), if_pos (Or.inl rfl)]
    split
    · rename_i hnone
      rw [h] at hnone
      cases hnone
    · rename_i hsome
      rw [h] at hsome
      cases hsome
      rfl
  have htext : scriptString s form = Utf8.encodeAll ('"' :: (cs ++ ['"'])) := by
    rw [scriptString, hcs, Utf8.encodeAll_cons, Utf8.encodeAll_append]
    rfl
  rw [htext]
  refine Lexes.of_step? (o := some _) fun r => hstep ?_
  rw [List.append_assoc]
  exact hbody r

/-- What stands in front of the name of a state. -/
theorem lexes_state : Lexes (utf8 "state[") [.word (utf8 "state"), .mark .leftBracket] := by
  refine ⟨"state[".toList, rfl, fun r => ?_⟩
  have hword : (step? 's' ("tate[".toList ++ r)).map (fun s => (s.token, s.rest)) =
      some (some (.word (utf8 "state")), '[' :: r) := rfl
  have hbracket : (step? '[' r).map (fun s => (s.token, s.rest)) =
      some (some (.mark .leftBracket), r) := rfl
  refine (charTokens?_of_step? hword).trans ?_
  rw [charTokens?_of_step? hbracket, Option.map_map]
  rfl

theorem lexes_blank : Lexes (utf8 " ") [] :=
  Lexes.of_step? (c := ' ') (o := none) (r := []) fun _ => rfl

theorem lexes_mark {c : Char} {m : Mark}
    (h : ∀ r, (step? c r).map (fun s => (s.token, s.rest)) = some (some (.mark m), r)) :
    Lexes (Utf8.encode c) [.mark m] := by
  have hlexes := Lexes.of_step? (o := some (.mark m)) (r := []) h
  rwa [Utf8.encodeAll_cons, Utf8.encodeAll_nil, List.append_nil] at hlexes

/-- **A reference to a state** is the state record, a bracket, the name and a bracket. -/
theorem lexes_stateReference (x : Bytes) : Lexes (Action.stateReference x)
    [.word (utf8 "state"), .mark .leftBracket, .string (Utf8.repair x), .mark .rightBracket] :=
  (lexes_state.append (lexes_scriptString x .plain)).append (lexes_mark (c := ']') fun _ => rfl)

theorem lexes_plus : Lexes (utf8 " + ") [.mark .plus] :=
  (lexes_blank.append (lexes_mark (c := '+') fun _ => rfl)).append lexes_blank

theorem lexes_minus : Lexes (utf8 " - ") [.mark .minus] :=
  (lexes_blank.append (lexes_mark (c := '-') fun _ => rfl)).append lexes_blank

/-! ### Numerals -/

theorem toNat_of_isDigit {c : Char} (h : c.isDigit) : 48 ≤ c.toNat ∧ c.toNat ≤ 57 := by
  rw [Char.isDigit, Bool.and_eq_true, decide_eq_true_eq, decide_eq_true_eq] at h
  exact h

theorem spanWhile_of_forall {p : Char → Bool} {cs : List Char} (h : ∀ c ∈ cs, p c) :
    spanWhile p cs = (cs, []) := by
  induction cs with
  | nil => rfl
  | cons c cs ih =>
    rw [List.forall_mem_cons] at h
    rw [spanWhile, if_pos h.1, ih h.2]

theorem numeralBase_of_isDigit (c : Char) {cs : List Char} (h : ∀ d ∈ cs, d.isDigit) :
    numeralBase c cs = (isDecimalChar, [c], cs) := by
  have hne {d e : Char} (hd : d.isDigit) (he : e.isDigit = false) : d ≠ e := by
    rintro rfl
    rw [hd] at he
    cases he
  rw [numeralBase.eq_def]
  split
  · rename_i d r
    have hd := h d List.mem_cons_self
    rw [if_neg (not_or.mpr ⟨hne hd (by decide), hne hd (by decide)⟩),
      if_neg (not_or.mpr ⟨hne hd (by decide), hne hd (by decide)⟩),
      if_neg (not_or.mpr ⟨hne hd (by decide), hne hd (by decide)⟩)]
  · rfl

theorem numeral?_of_isDigit (c : Char) {cs : List Char} (h : ∀ d ∈ cs, d.isDigit) :
    numeral? c cs = some (c :: cs, []) := by
  have hspan : spanWhile isDecimalChar cs = (cs, []) :=
    spanWhile_of_forall fun d hd => by rw [isDecimalChar, h d hd, Bool.true_or]
  rw [numeral?, numeralBase_of_isDigit c h]
  dsimp only
  rw [hspan]
  simp [numeralFraction, numeralExponent]

theorem isDigit_of_mem_toDigits {n : Nat} {c : Char} (h : c ∈ Nat.toDigits 10 n) : c.isDigit :=
  Nat.isDigit_of_mem_toDigits (by omega) (by omega) h

theorem encodeAll_toDigits (n : Nat) : Utf8.encodeAll (Nat.toDigits 10 n) = decimalNat n := by
  have hdigits {cs : List Char} (h : ∀ c ∈ cs, c.isDigit) :
      Utf8.encodeAll cs = cs.map octet := by
    induction cs with
    | nil => rfl
    | cons c cs ih =>
      rw [List.forall_mem_cons] at h
      have hlt : c.toNat < 0x80 := Nat.lt_of_le_of_lt (toNat_of_isDigit h.1).2 (by decide)
      rw [Utf8.encodeAll_cons, Utf8.encode_of_lt hlt, ih h.2, List.map_cons, List.singleton_append]
  exact hdigits fun c => isDigit_of_mem_toDigits

theorem step?_of_isDigit {c : Char} (hc : c.isDigit) {cs : List Char} (h : ∀ d ∈ cs, d.isDigit) :
    (step? c cs).map (fun s => (s.token, s.rest)) =
      some (some (.number (Utf8.encodeAll (c :: cs))), []) := by
  obtain ⟨hlow, hhigh⟩ := toNat_of_isDigit hc
  have hblank : isBlank c = false := by
    have hdigit : ∀ n ≤ 57, 48 ≤ n → isBlank (Char.ofNat n) = false := by decide
    rw [← Char.ofNat_toNat c]
    exact hdigit _ hhigh hlow
  have hquote : ¬(c = '"' ∨ c = '\'') := by
    rintro (rfl | rfl) <;> exact absurd hc (by decide)
  rw [step?.eq_def, hblank, if_neg (by simp), if_neg hquote, if_neg (by omega), if_pos (Or.inl hc)]
  split
  · rename_i hnone
    rw [numeral?_of_isDigit c h] at hnone
    cases hnone
  · rename_i hsome
    rw [numeral?_of_isDigit c h] at hsome
    cases hsome
    rfl

/-- **A decimal numeral is one token**, if nothing follows. -/
theorem charTokens?_toDigits (n : Nat) :
    charTokens? (Nat.toDigits 10 n) = some [.number (decimalNat n)] := by
  have hdigits : ∀ c ∈ Nat.toDigits 10 n, c.isDigit := fun c => isDigit_of_mem_toDigits
  obtain ⟨c, cs, hcs⟩ := List.exists_cons_of_ne_nil (Nat.toDigits_ne_nil (n := n) (b := 10))
  rw [hcs, List.forall_mem_cons] at hdigits
  rw [← encodeAll_toDigits, hcs, charTokens?_of_step? (step?_of_isDigit hdigits.1 hdigits.2),
    charTokens?]
  rfl

theorem decimalValue?_octet {c : Char} (h : c.isDigit) :
    Numeral.decimalValue? (octet c) = some (c.toNat - 48) := by
  obtain ⟨hlow, hhigh⟩ := toNat_of_isDigit h
  have htoNat : (octet c).toNat = c.toNat := Utf8.octet_toNat (by omega)
  have hdigit : isDigitOctet (octet c) := by
    rw [isDigitOctet, Bool.and_eq_true, decide_eq_true_eq, decide_eq_true_eq,
      UInt8.le_iff_toNat_le, UInt8.le_iff_toNat_le, htoNat]
    exact ⟨hlow, hhigh⟩
  rw [Numeral.decimalValue?, if_pos hdigit, htoNat]

theorem based?_decimalNat (n : Nat) :
    Numeral.based? Numeral.decimalValue? 10 (decimalNat n) = some n := by
  -- The digits are read from any value on, as the induction needs it.
  have hfold {cs : List Char} (h : ∀ c ∈ cs, c.isDigit) (v : Nat) :
      (cs.map octet).foldlM (fun n d => (Numeral.decimalValue? d).map (n * 10 + ·)) v =
        some (Nat.ofDigitChars 10 cs v) := by
    induction cs generalizing v with
    | nil => rfl
    | cons c cs ih =>
      rw [List.forall_mem_cons] at h
      rw [List.map_cons, List.foldlM_cons, decimalValue?_octet h.1, Nat.ofDigitChars,
        List.foldl_cons, Nat.mul_comm 10 v]
      exact ih h.2 _
  have hempty : (decimalNat n).isEmpty = false := by
    rw [decimalNat, List.isEmpty_eq_false_iff, Ne, List.map_eq_nil_iff]
    exact Nat.toDigits_ne_nil
  rw [Numeral.based?, hempty, if_neg (by simp), decimalNat,
    hfold (fun c => isDigit_of_mem_toDigits) 0, Nat.ofDigitChars_ten_toDigits]

/-- **A decimal numeral is read as its number.** -/
theorem term?_decimalNat {n : Nat} (hn : n < 2 ^ 63) :
    Numeral.term? (decimalNat n) = some (.int (Int64.ofNat n)) := by
  have hdigit : ∀ b ∈ decimalNat n, isDigitOctet b := fun b => isDigitOctet_of_mem_decimalNat
  have hne {b c : UInt8} (hb : b ∈ decimalNat n) (hc : isDigitOctet c = false) : b ≠ c := by
    rintro rfl
    rw [hdigit b hb] at hc
    cases hc
  -- All octets of the numeral are digits: there are no separators and no capitals, the base is ten,
  -- and it is no floating number.
  have hfilter : (decimalNat n).filter (· ≠ octet '_') = decimalNat n :=
    List.filter_eq_self.mpr fun b hb => decide_eq_true (hne hb (by decide))
  have hlower : (decimalNat n).map lowerOctet = decimalNat n := by
    refine (List.map_congr_left fun b hb => ?_).trans (List.map_id _)
    rw [lowerOctet, if_neg, id]
    intro hupper
    have hb := hdigit b hb
    simp only [isDigitOctet, isUpperOctet, Bool.and_eq_true, decide_eq_true_eq,
      UInt8.le_iff_toNat_le] at hb hupper
    have h9 : (octet '9').toNat = 57 := rfl
    have hA : (octet 'A').toNat = 65 := rfl
    omega
  have hafter {p : Bytes} {c : UInt8} (hp : c ∈ p) (hc : isDigitOctet c = false) :
      Bytes.after? p (decimalNat n) = none := by
    cases hr : Bytes.after? p (decimalNat n) with
    | none => rfl
    | some r =>
      have hmem : c ∈ decimalNat n := by
        rw [Bytes.eq_of_after? hr]
        exact List.mem_append_left r hp
      exact absurd rfl (hne hmem hc)
  have hmarks : (decimalNat n).any (fun b => b == octet '.' || b == octet 'e') = false := by
    rw [List.any_eq_false]
    intro b hb
    simp [hne hb (c := octet '.') (by decide), hne hb (c := octet 'e') (by decide)]
  rw [Numeral.term?, hfilter, hlower, hafter (c := octet 'x') (by decide) (by decide), hmarks,
    if_neg (by simp), hafter (c := octet 'b') (by decide) (by decide),
    hafter (c := octet 'o') (by decide) (by decide),
    based?_decimalNat]
  exact if_pos hn

end Expression

end LiveMarkup

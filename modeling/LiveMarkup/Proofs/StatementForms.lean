import LiveMarkup.Proofs.Literal
import LiveMarkup.Proofs.Tree.Printing

/-!
# The forms of statements that are compiled

A statement is compiled if it is a state, an operator and an operand: `x.value += n`,
`x.value -= n`, or `x.value =` with an integer, a truth value or a string. There may be spaces and
tabs around the operator and around the whole, and one semicolon behind it
(`LiveMarkup.Statement.Margins`). `LiveMarkup.Statement.ofBody_forms` says what each of these is
compiled to.

The body is divided at the first operator (`LiveMarkup.Statement.split?_append`). A name and a point
have no operator in them, so this is the operator of the statement, whatever operators are in the
operand. The operand is a literal in its canonical form, and what is in front of the operator is
read as the value of a state (`LiveMarkup.Identifier.parseTarget?_value`).
-/

namespace LiveMarkup

/-! ### Names of states -/

/-- The words of the expression language that are operators or constants. -/
def Expression.reservedWords : List Bytes :=
  [utf8 "not", utf8 "in", utf8 "or", utf8 "and", utf8 "matches", utf8 "contains",
   utf8 "startsWith", utf8 "endsWith", utf8 "let", utf8 "true", utf8 "false", utf8 "nil"]

/-- The first octet of an identifier. -/
def isIdentStart (b : UInt8) : Bool := isAlphaOctet b || b == octet '_'

/-- **An identifier**: a letter or an underscore, then letters, digits and underscores, and no
reserved word. -/
structure Identifier where
  text : Bytes
  isWord : isWord isIdentStart isIdentOctet text
  notReserved : text ∉ Expression.reservedWords

theorem toNat_of_isIdentStart {b : UInt8} (h : isIdentStart b) :
    (65 ≤ b.toNat ∧ b.toNat ≤ 90) ∨ b.toNat = 95 ∨ (97 ≤ b.toNat ∧ b.toNat ≤ 122) := by
  rw [isIdentStart, isAlphaOctet, Bool.or_eq_true, Bool.or_eq_true] at h
  rcases h with (hlower | hupper) | hscore
  · exact Or.inr (Or.inr (toNat_of_between hlower))
  · exact Or.inl (toNat_of_between hupper)
  · obtain rfl := eq_of_beq hscore
    exact Or.inr (Or.inl rfl)

theorem isSolid_of_isIdentOctet {b : UInt8} (h : isIdentOctet b) : isSolid b :=
  Print.isSolid_of_isNameOctet (by rw [isNameOctet, h, Bool.true_or])

theorem isIdentOctet_of_isIdentStart {b : UInt8} (h : isIdentStart b) : isIdentOctet b := by
  rw [isIdentStart, Bool.or_eq_true] at h
  rw [isIdentOctet]
  rcases h with h | h <;> simp [h]

namespace Expression

theorem ofWord?_of_notMem {w : Bytes} (h : w ∉ reservedWords) : Mark.ofWord? w = none := by
  have hspellings : ∀ y ∈ Mark.spellings, y.1 ∈ reservedWords := by decide
  rw [Mark.ofWord?, Option.map_eq_none_iff, List.find?_eq_none]
  intro y hy heq
  rw [beq_iff_eq] at heq
  exact h (heq ▸ hspellings y hy)

theorem constant?_of_notMem {w : Bytes} (h : w ∉ reservedWords) : constant? w = none := by
  have hne {v : Bytes} (hv : v ∈ reservedWords) : w ≠ v := fun hwv => h (hwv ▸ hv)
  rw [constant?, if_neg (hne (by decide)), if_neg (hne (by decide)), if_neg (hne (by decide))]

/-- What the lexer asks of the first character of a word. -/
theorem scan?_of_isIdentStart {b : UInt8} (hb : isIdentStart b) (cs : List Char) :
    scan? (Char.ofNat b.toNat) cs =
      some (some (wordToken (Char.ofNat b.toNat :: (spanWhile isWordChar cs).1)),
        (spanWhile isWordChar cs).2) := by
  -- Everything that the lexer asks before it takes a character for a word, asked of letters and the
  -- underscore.
  have hchar : ∀ k < 0x80, (65 ≤ k ∧ k ≤ 90) ∨ k = 95 ∨ (97 ≤ k ∧ k ≤ 122) →
      isBlank (Char.ofNat k) = false ∧ Char.ofNat k ∉ ['"', '\'', '.', '/'] ∧
      (Char.ofNat k).toNat ≠ 0x60 ∧ (Char.ofNat k).isDigit = false ∧
      soloMark? (Char.ofNat k) = none ∧ extensions? (Char.ofNat k) = none ∧
      isWordChar (Char.ofNat k) = true := by decide +kernel
  have hrange : (65 ≤ b.toNat ∧ b.toNat ≤ 90) ∨ b.toNat = 95 ∨ (97 ≤ b.toNat ∧ b.toNat ≤ 122) :=
    toNat_of_isIdentStart hb
  obtain ⟨hblank, hmarks, hraw, hdigit, hsolo, hextensions, hword⟩ :=
    hchar b.toNat (by omega) hrange
  have hne {c : Char} (hc : c ∈ ['"', '\'', '.', '/']) : Char.ofNat b.toNat ≠ c :=
    fun h => hmarks (h ▸ hc)
  rw [scan?, if_neg (by simp [hblank]), if_neg (not_or.mpr ⟨hne (by decide), hne (by decide)⟩),
    if_neg hraw, if_neg, if_neg (hne (by decide)), hsolo, hextensions]
  · exact if_pos hword
  · rintro (h | ⟨h, -⟩)
    · rw [hdigit] at h
      cases h
    · exact hne (by decide) h

/-- The characters of an identifier behind its first one can go on with a word. -/
theorem isWordChar_of_isIdentOctet {b : UInt8} (hb : isIdentOctet b) :
    isWordChar (Char.ofNat b.toNat) := by
  have hchar : ∀ k < 0x80, (48 ≤ k ∧ k ≤ 57) ∨ (65 ≤ k ∧ k ≤ 90) ∨ k = 95 ∨ (97 ≤ k ∧ k ≤ 122) →
      isWordChar (Char.ofNat k) = true := by decide +kernel
  have hrange := toNat_of_isIdentOctet hb
  exact hchar b.toNat (by omega) hrange

/-- **A name, a point and a property** are three tokens. -/
theorem tokens?_identifier (x : Identifier) :
    tokens? (x.text ++ utf8 ".value") =
      some [.word x.text, .mark .dot, .word (utf8 "value")] := by
  obtain ⟨text, hword, hreserved⟩ := x
  cases text with
  | nil => exact absurd hword (by simp [isWord])
  | cons b r =>
    rw [isWord, Bool.and_eq_true, List.all_eq_true] at hword
    have hascii : ∀ c ∈ b :: r, c.toNat < 0x80 := by
      refine List.forall_mem_cons.mpr ⟨?_, fun c hc => ?_⟩
      · have hrange := toNat_of_isIdentStart hword.1
        omega
      · have hrange := toNat_of_isIdentOctet (hword.2 c hc)
        omega
    have hchars : Utf8.lossy ((b :: r) ++ utf8 ".value") =
        Char.ofNat b.toNat :: (r.map (fun c => Char.ofNat c.toNat) ++ ".value".toList) := by
      have hencode := Utf8.encodeAll_of_ascii hascii
      have hvalue : utf8 ".value" = Utf8.encodeAll ".value".toList := by decide
      rw [← hencode, hvalue, ← Utf8.encodeAll_append, Utf8.lossy_encodeAll]
      rfl
    -- The word ends at the point, which no word goes on with.
    have hspan : spanWhile isWordChar (r.map (fun c => Char.ofNat c.toNat) ++ ".value".toList) =
        (r.map (fun c => Char.ofNat c.toNat), ".value".toList) := by
      rw [spanWhile_append (by decide), spanWhile_of_forall]
      · rfl
      · intro c hc
        obtain ⟨d, hd, rfl⟩ := List.mem_map.mp hc
        exact isWordChar_of_isIdentOctet (hword.2 d hd)
    have hstep := scan?_of_isIdentStart hword.1
      (r.map (fun c => Char.ofNat c.toNat) ++ ".value".toList)
    have hspelling : spelling (Char.ofNat b.toNat :: r.map fun c => Char.ofNat c.toNat) = b :: r :=
      Utf8.encodeAll_of_ascii hascii
    have hrest : charTokens? ".value".toList = some [.mark .dot, .word (utf8 "value")] := by
      decide +kernel
    rw [hspan, wordToken, hspelling, ofWord?_of_notMem hreserved] at hstep
    rw [tokens?, hchars, charTokens?_of_step? ((map_step? _ _).trans hstep), hrest]
    rfl

theorem expression?_property {w : Bytes} (hw : constant? w = none) (p : Bytes) :
    expression? 0 [.word w, .mark .dot, .word p] =
      some ⟨.access (.name w) (.string p) false, [], Nat.zero_lt_succ _⟩ := by
  simp [expression?, primary?, parts?, property?, propertyName?, propertyTerm, operators?, choices?,
    skip?, hw]

end Expression

namespace Identifier

variable (x : Identifier)

/-- The text for the value of the state. -/
def value : Bytes := x.text ++ utf8 ".value"

/-- The octets of such a text are those of identifiers, and a point. -/
theorem octets_value : ∀ b ∈ x.value, isIdentOctet b ∨ b = octet '.' := by
  have hproperty : ∀ b ∈ utf8 "value", isIdentOctet b :=
    List.all_eq_true.mp (show (utf8 "value").all isIdentOctet by decide)
  refine List.forall_mem_append.mpr ⟨fun b hb => Or.inl ?_, List.forall_mem_cons.mpr
    ⟨Or.inr rfl, fun b hb => Or.inl (hproperty b hb)⟩⟩
  exact forall_mem_of_isWord (fun _ => isIdentOctet_of_isIdentStart) (fun _ h => h) x.isWord b hb

theorem isSolid_of_mem_value {b : UInt8} (h : b ∈ x.value) : isSolid b := by
  rcases x.octets_value b h with hb | rfl
  · exact isSolid_of_isIdentOctet hb
  · decide

theorem value_ne_nil : x.value ≠ [] := List.append_ne_nil_of_right_ne_nil _ (by decide)

/-- **The value of a state** is read as the state that it is the value of. -/
theorem parseTarget?_value : parseTarget? x.value = some x.text := by
  have hparse := Expression.parse?_of_tokens? (Expression.tokens?_identifier x)
    (Expression.expression?_property (Expression.constant?_of_notMem x.notReserved) _)
  rw [parseTarget?, Bytes.trim_of_forall_isSolid fun b => x.isSolid_of_mem_value, value, hparse]
  rfl

end Identifier

/-! ### Operators -/

/-- How an operator is written. -/
def Assignment.text : Assignment → Bytes
  | .set => utf8 "="
  | .add => utf8 "+="
  | .subtract => utf8 "-="

/-- Spaces and tabs. -/
abbrev Spacing := { s : Bytes // s.all fun b => b == octet ' ' || b == octet '\t' }

namespace Spacing

variable (g : Spacing)

theorem mem_cases {b : UInt8} (h : b ∈ g.1) : b = octet ' ' ∨ b = octet '\t' := by
  simpa using List.all_eq_true.mp g.2 b h

theorem ascii : ∀ b ∈ g.1, b.toNat < 0x80 := fun b hb => by
  rcases g.mem_cases hb with rfl | rfl <;> decide

theorem isValid : Utf8.isValid g.1 :=
  Utf8.isValid_iff.mpr ⟨_, (Utf8.encodeAll_of_ascii g.ascii).symm⟩

theorem isWhite : g.1.isWhite := by
  refine Bytes.isWhite_iff.mpr ⟨_, (Utf8.encodeAll_of_ascii g.ascii).symm, fun c hc => ?_⟩
  obtain ⟨b, hb, rfl⟩ := List.mem_map.mp hc
  rcases g.mem_cases hb with rfl | rfl <;> decide

/-- Spacing in front of something solid is skipped. -/
theorem dropWhile_append {s : Bytes} (hs : s.head?.any isPatternBlank = false) :
    (g.1 ++ s).dropWhile isPatternBlank = s :=
  dropWhile_append_of_boundary
    (fun b hb => by rcases g.mem_cases hb with rfl | rfl <;> decide) hs

end Spacing

theorem isPatternBlank_of_isSolid {b : UInt8} (h : isSolid b) : isPatternBlank b = false := by
  refine Bool.eq_false_iff.mpr fun hblank => ?_
  simp only [isPatternBlank, Bool.or_eq_true, beq_iff_eq] at hblank
  rcases hblank with (((rfl | rfl) | rfl) | rfl) | rfl <;> exact absurd h (by decide)

theorem Bytes.after?_append_self (p r : Bytes) : after? p (p ++ r) = some r := by
  induction p with
  | nil => rfl
  | cons b p ih => rw [List.cons_append, after?, if_pos rfl, ih]

namespace Statement

/-- What does not start with white space or an operator has none in front. -/
theorem operator?_of_head {b : UInt8} (hb : isIdentOctet b ∨ b = octet '.') (r : Bytes) :
    operator? (b :: r) = none := by
  have hsolid : isSolid b := by
    rcases hb with hb | rfl
    · exact isSolid_of_isIdentOctet hb
    · decide
  have hne {c : UInt8} (hc : isIdentOctet c = false) (hpoint : c ≠ octet '.') : c ≠ b := by
    rintro rfl
    rcases hb with hb | hb
    · rw [hb] at hc
      cases hc
    · exact hpoint hb
  have hafter {c : UInt8} (p : Bytes) (hc : c ≠ b) : Bytes.after? (c :: p) (b :: r) = none := by
    rw [Bytes.after?, if_neg hc]
  have hplus := hafter [octet '='] (hne (c := octet '+') (by decide) (by decide))
  have hminus := hafter [octet '='] (hne (c := octet '-') (by decide) (by decide))
  have hset := hafter [] (hne (c := octet '=') (by decide) (by decide))
  have hdrop : (b :: r).dropWhile isPatternBlank = b :: r :=
    List.dropWhile_cons_of_neg (by simp [isPatternBlank_of_isSolid hsolid])
  rw [operator?, hdrop]
  dsimp only
  rw [show utf8 "+=" = octet '+' :: [octet '='] from rfl,
    show utf8 "-=" = octet '-' :: [octet '='] from rfl, show utf8 "=" = octet '=' :: [] from rfl,
    hplus, hminus, hset]
  rfl

/-- An operator is found between its spacings. -/
theorem operator?_append (left right : Spacing) (op : Assignment) {operand : Bytes}
    (hne : operand ≠ []) (hoperand : operand.head?.any isPatternBlank = false) :
    operator? (left.1 ++ (op.text ++ (right.1 ++ operand))) = some (op, operand) := by
  have hdrop : (left.1 ++ (op.text ++ (right.1 ++ operand))).dropWhile isPatternBlank =
      op.text ++ (right.1 ++ operand) := left.dropWhile_append (by cases op <;> rfl)
  have hright := right.dropWhile_append hoperand
  have hempty : operand.isEmpty = false := by simpa using hne
  rw [operator?, hdrop]
  cases op with
  | set =>
    have hplus : Bytes.after? (utf8 "+=") (utf8 "=" ++ (right.1 ++ operand)) = none := rfl
    have hminus : Bytes.after? (utf8 "-=") (utf8 "=" ++ (right.1 ++ operand)) = none := rfl
    simp only [Assignment.text, hplus, hminus, Bytes.after?_append_self, Option.map_some, hright,
      hempty, Bool.false_eq_true, if_false]
  | add =>
    simp only [Assignment.text, Bytes.after?_append_self, hright, hempty, Bool.false_eq_true,
      if_false]
  | subtract =>
    have hplus : Bytes.after? (utf8 "+=") (utf8 "-=" ++ (right.1 ++ operand)) = none := rfl
    simp only [Assignment.text, hplus, Bytes.after?_append_self, hright, hempty,
      Bool.false_eq_true, if_false]

/-- **A statement is divided at its first operator.** -/
theorem split?_append {w rest operand : Bytes} {op : Assignment} (hne : w ≠ [])
    (hw : ∀ b ∈ w, isIdentOctet b ∨ b = octet '.') (hrest : operator? rest = some (op, operand)) :
    split? (w ++ rest) = some (w, op, operand) := by
  induction w with
  | nil => exact absurd rfl hne
  | cons b w ih =>
    rw [List.cons_append, split?]
    cases w with
    | nil => rw [List.nil_append, hrest]
    | cons c w =>
      rw [List.forall_mem_cons] at hw
      -- No operator starts behind an octet of the target, as long as there is one more.
      rw [List.cons_append, operator?_of_head (hw.2 c List.mem_cons_self), ← List.cons_append,
        ih (by simp) hw.2]
      rfl

/-! ### Operands -/

/-- **The text of an operand**: it is read as a literal, and there is neither white space around it
nor a semicolon behind it. -/
structure IsOperand (s : Bytes) (l : Literal) : Prop where
  valid : Utf8.isValid s
  first : ∃ b, s.head? = some b ∧ isSolid b
  last : ∃ b, s.getLast? = some b ∧ isSolid b ∧ b ≠ octet ';'
  parse : Literal.parse? s = some l

theorem decimalInt_ne_nil (n : Int) : decimalInt n ≠ [] := by
  cases n with
  | ofNat k => simp [decimalInt, decimalNat, Nat.toDigits_ne_nil]
  | negSucc k => simp [decimalInt]

theorem isOperand_decimalInt {d : Int64} (hd : d ≠ Int64.minValue) :
    IsOperand (decimalInt d.toInt) (.ofInt d) := by
  have hparse := Literal.parse?_ofInt hd .plain
  have hne : decimalInt d.toInt ≠ [] := decimalInt_ne_nil d.toInt
  refine ⟨isValid_of_isCode (isCode_decimalInt _), ⟨_, List.head?_eq_some_head hne, ?_⟩,
    ⟨_, List.getLast?_eq_some_getLast hne, ?_, ?_⟩, hparse⟩
  · exact isSolid_of_mem_decimalInt (List.head_mem hne)
  · exact isSolid_of_mem_decimalInt (List.getLast_mem hne)
  · intro hlast
    have hdigit := isDigitOctet_of_mem_decimalInt (List.getLast_mem hne)
    rw [hlast] at hdigit
    exact absurd hdigit (by decide)

theorem isOperand_ofBool (b : Bool) : IsOperand (Literal.ofBool b).text (.ofBool b) := by
  have hparse := Literal.parse?_ofBool b .plain
  cases b with
  | false =>
    exact ⟨Utf8.isValid_utf8 "false", ⟨octet 'f', rfl, by decide⟩, ⟨octet 'e', rfl, by decide⟩,
      hparse⟩
  | true =>
    exact ⟨Utf8.isValid_utf8 "true", ⟨octet 't', rfl, by decide⟩, ⟨octet 'e', rfl, by decide⟩,
      hparse⟩

theorem isOperand_scriptString (v : Bytes) : IsOperand (scriptString v) (.ofString v) := by
  have hlast : (scriptString v).getLast? = some (octet '"') := by
    rw [scriptString, ← List.cons_append, List.getLast?_concat]
  have hparse := Literal.parse?_ofString v .plain
  rw [Literal.ofString_repair_eq_iff.mpr (Or.inl rfl)] at hparse
  exact ⟨isValid_scriptString v .plain, ⟨_, rfl, by decide⟩, ⟨_, hlast, by decide, by decide⟩,
    hparse⟩

/-! ### Margins -/

/-- **What may be around the parts of a statement**: spaces and tabs in front of the statement, on
both sides of its operator and behind it, and one semicolon with spacing behind it. -/
structure Margins where
  before : Spacing
  left : Spacing
  right : Spacing
  behind : Spacing
  after : Spacing
  semicolon : Bool

namespace Margins

variable (m : Margins) (x : Identifier) (op : Assignment)

/-- A statement, from its target to its operand. -/
def core (operand : Bytes) : Bytes :=
  x.value ++ (m.left.1 ++ (op.text ++ (m.right.1 ++ operand)))

theorem isValid_core {operand : Bytes} (h : Utf8.isValid operand) :
    Utf8.isValid (m.core x op operand) := by
  have hvalue : Utf8.isValid x.value := Utf8.isValid_of_ascii <| List.all_eq_true.mpr fun b hb => by
    have hsolid := x.isSolid_of_mem_value hb
    rw [isSolid, Bool.and_eq_true] at hsolid
    exact hsolid.1
  have hop : Utf8.isValid op.text := by cases op <;> exact Utf8.isValid_utf8 _
  exact Utf8.isValid_append hvalue <| Utf8.isValid_append m.left.isValid <|
    Utf8.isValid_append hop <| Utf8.isValid_append m.right.isValid h

theorem getLast?_core {operand : Bytes} {e : UInt8} (h : operand.getLast? = some e) :
    (m.core x op operand).getLast? = some e := by
  simp only [core, List.getLast?_append, h, Option.some_or]

/-- The body of a handler that a statement is written in. -/
def body (s : Bytes) : Bytes :=
  m.before.1 ++ (s ++ (m.behind.1 ++ ((if m.semicolon then [octet ';'] else []) ++ m.after.1)))

/-- **Margins are taken off**, with the semicolon. -/
theorem trim_body {s : Bytes} {b e : UInt8} (hvalid : Utf8.isValid s) (hfirst : s.head? = some b)
    (hb : isSolid b) (hlast : s.getLast? = some e) (he : isSolid e) (hne : e ≠ octet ';') :
    (dropSemicolon (m.body s).trim).trim = s := by
  have htrim : s.trim = s := Bytes.trim_of_solid hvalid hfirst hb hlast he
  rw [body, Bytes.trim_white_append m.before.isWhite]
  cases m.semicolon with
  | false =>
    have hdrop : dropSemicolon s = s := if_neg (by rw [hlast]; simpa using hne)
    rw [if_neg (by decide), List.nil_append, ← List.append_assoc,
      Bytes.trim_append_white m.after.isWhite, Bytes.trim_append_white m.behind.isWhite, htrim,
      hdrop, htrim]
  | true =>
    -- The semicolon is the last octet now, and keeps the spacing in front of it.
    have hmark : (s ++ m.behind.1 ++ [octet ';']).trim = s ++ m.behind.1 ++ [octet ';'] := by
      have hbehind : Utf8.isValid m.behind.1 := m.behind.isValid
      refine Bytes.trim_of_solid (b := b)
        (Utf8.isValid_append (Utf8.isValid_append hvalid hbehind) (Utf8.isValid_utf8 ";")) ?_ hb
        List.getLast?_concat (by decide)
      rw [List.append_assoc, List.head?_append, hfirst, Option.some_or]
    have hdrop : dropSemicolon (s ++ m.behind.1 ++ [octet ';']) = s ++ m.behind.1 := by
      rw [dropSemicolon, if_pos List.getLast?_concat, List.dropLast_concat]
    rw [if_pos rfl, ← List.append_assoc, ← List.append_assoc,
      Bytes.trim_append_white m.after.isWhite, hmark, hdrop,
      Bytes.trim_append_white m.behind.isWhite, htrim]

end Margins

section Forms

variable {operand : Bytes} {l : Literal} (h : IsOperand operand l) (x : Identifier) (m : Margins)
  (op : Assignment)

include h

theorem action?_core : action? (m.core x op operand) = actionOf? x.text op l := by
  obtain ⟨b, hfirst, hb⟩ := h.first
  have hne : operand ≠ [] := by
    rintro rfl
    cases hfirst
  have hoperator := operator?_append m.left m.right op hne
    (by rw [hfirst]; exact isPatternBlank_of_isSolid hb)
  rw [action?, Margins.core, split?_append x.value_ne_nil x.octets_value hoperator]
  dsimp only
  rw [x.parseTarget?_value, h.parse]

theorem ofBody_body :
    ofBody (m.body (m.core x op operand)) =
      ⟨(actionOf? x.text op l).getD .raw, m.core x op operand⟩ := by
  obtain ⟨e, hlast, he, hne⟩ := h.last
  obtain ⟨b, hfirst⟩ : ∃ b, x.value.head? = some b :=
    ⟨_, List.head?_eq_some_head x.value_ne_nil⟩
  have hb : isSolid b := x.isSolid_of_mem_value (List.mem_of_head? hfirst)
  have hhead : (m.core x op operand).head? = some b := by
    rw [Margins.core, List.head?_append, hfirst, Option.some_or]
  have htrim := m.trim_body (m.isValid_core x op h.valid) hhead hb (m.getLast?_core x op hlast) he
    hne
  rw [ofBody, htrim, action?_core h]

end Forms

/-- **The forms of statements.** Let the target be the value of a state with the name `x`, with any
spaces and tabs around the operator and around the statement, and with or without a semicolon. An
integer of fewer than 64 bits can be added, subtracted and assigned; truth values and string
literals can be assigned, whatever is in the string. The text of the statement is what is left
without the margins and the semicolon. -/
theorem ofBody_forms (x : Identifier) (m : Margins) :
    (∀ n : Int, n.natAbs < 2 ^ 63 → ∃ d : Int64, d.toInt = n ∧
      ofBody (m.body (m.core x .add (decimalInt n))) =
        ⟨.increment x.text d, m.core x .add (decimalInt n)⟩ ∧
      ofBody (m.body (m.core x .subtract (decimalInt n))) =
        ⟨.decrement x.text d, m.core x .subtract (decimalInt n)⟩ ∧
      ofBody (m.body (m.core x .set (decimalInt n))) =
        ⟨.assign x.text (decimalInt n), m.core x .set (decimalInt n)⟩) ∧
    (∀ w ∈ [utf8 "true", utf8 "false"],
      ofBody (m.body (m.core x .set w)) = ⟨.assign x.text w, m.core x .set w⟩) ∧
    ∀ v : Bytes, ofBody (m.body (m.core x .set (scriptString v))) =
      ⟨.assign x.text (scriptString v), m.core x .set (scriptString v)⟩ := by
  refine ⟨fun n hn => ?_, fun w hw => ?_, fun v => ofBody_body (isOperand_scriptString v) x m .set⟩
  · obtain ⟨d, rfl⟩ : ∃ d : Int64, d.toInt = n :=
      ⟨Int64.ofInt n, Int64.toInt_ofInt_of_le (by omega) (by omega)⟩
    have hmin : d ≠ Int64.minValue := by
      rintro rfl
      exact absurd hn (by decide)
    have hoperand := isOperand_decimalInt hmin
    exact ⟨d, rfl, ofBody_body hoperand x m .add, ofBody_body hoperand x m .subtract,
      ofBody_body hoperand x m .set⟩
  · rcases List.mem_pair.mp hw with rfl | rfl
    · exact ofBody_body (isOperand_ofBool true) x m .set
    · exact ofBody_body (isOperand_ofBool false) x m .set

/-- A negative number behind an operator with a minus sign, and a string of operators. -/
theorem ofBody_forms_negative :
    ofBody (utf8 "\tx_1.value-= -5 ; ") = ⟨.decrement (utf8 "x_1") (-5), utf8 "x_1.value-= -5"⟩ ∧
      ofBody (utf8 "\tx_1.value= \"-= 5; += \" ; ") =
        ⟨.assign (utf8 "x_1") (utf8 "\"-= 5; += \""), utf8 "x_1.value= \"-= 5; += \""⟩ := by
  let x : Identifier := ⟨utf8 "x_1", by decide, by decide⟩
  let m : Margins :=
    ⟨⟨utf8 "\t", by decide⟩, ⟨[], by decide⟩, ⟨utf8 " ", by decide⟩, ⟨utf8 " ", by decide⟩,
      ⟨utf8 " ", by decide⟩, true⟩
  obtain ⟨hint, -, hstring⟩ := ofBody_forms x m
  constructor
  · obtain ⟨d, hd, -, hsubtract, -⟩ := hint (-5) (by decide)
    obtain rfl : d = -5 := Int64.toInt_inj.mp hd
    exact hsubtract
  · have hassign := hstring (utf8 "-= 5; += ")
    have hliteral : scriptString (utf8 "-= 5; += ") = utf8 "\"-= 5; += \"" := by decide +kernel
    rw [hliteral] at hassign
    exact hassign

end Statement

end LiveMarkup

import LiveMarkup.Expression.Token
import LiveMarkup.Text.Blank
import LiveMarkup.Text.Escape
import LiveMarkup.Text.Letter
import LiveMarkup.Text.LetterCase

/-!
# Reading tokens

`LiveMarkup.Expression.tokens?` cuts the characters of an expression into tokens, or gives `none`
when they cannot be: an unfinished string or comment, a malformed numeral, a character that belongs
to no token. White space and comments separate tokens and leave none.

One step takes at least one character, so the loop ends by the number of characters that are left.
-/

namespace LiveMarkup

namespace Expression

/-! ### Characters -/

/-- A character that a word may start with: a letter of any script, `_` or `$`. -/
def isWordStart (c : Char) : Bool := c == '_' || c == '$' || isLetter c

/-- A character that a word may contain: also a decimal digit of any script. -/
def isWordChar (c : Char) : Bool := isWordStart c || isDecimalDigit c

/-- The ASCII octet of a character, and zero for any other character. -/
def asciiOctet (c : Char) : UInt8 := if c.toNat < 0x80 then octet c else 0

/-- The longest beginning of `cs` that satisfies `p`, and the rest. -/
def spanWhile (p : Char → Bool) : List Char → List Char × List Char
  | [] => ([], [])
  | c :: cs => if p c then ((c :: (spanWhile p cs).1), (spanWhile p cs).2) else ([], c :: cs)

theorem length_spanWhile (p : Char → Bool) (cs : List Char) :
    (spanWhile p cs).2.length ≤ cs.length := by
  induction cs with
  | nil => simp [spanWhile]
  | cons c cs ih =>
    rw [spanWhile]
    split
    · simp only [List.length_cons]
      omega
    · simp

/-- Skips one character if it is among `options`. -/
def skipOne (options : List Char) : List Char → List Char × List Char
  | [] => ([], [])
  | c :: cs => if options.contains c then ([c], cs) else ([], c :: cs)

theorem length_skipOne (options cs : List Char) : (skipOne options cs).2.length ≤ cs.length := by
  cases cs with
  | nil => simp [skipOne]
  | cons c cs =>
    rw [skipOne]
    split <;> simp

/-! ### Strings -/

/-- The value of exactly `n` hexadecimal digits, and what follows them. -/
def hexChars? : (n : Nat) → (v : Nat) → List Char → Option (Nat × List Char)
  | 0, v, cs => some (v, cs)
  | _ + 1, _, [] => none
  | n + 1, v, c :: cs =>
    match hexValue? (asciiOctet c) with
    | some d => hexChars? n (v * 16 + d) cs
    | none => none

theorem length_of_hexChars? {n v w : Nat} {cs r : List Char} (h : hexChars? n v cs = some (w, r)) :
    r.length ≤ cs.length := by
  induction n generalizing v cs with
  | zero => simp only [hexChars?, Option.some.injEq, Prod.mk.injEq] at h; simp [h.2]
  | succ n ih =>
    cases cs with
    | nil => simp [hexChars?] at h
    | cons c cs =>
      rw [hexChars?] at h
      split at h
      · have := ih h
        simp only [List.length_cons]
        omega
      · simp at h

/-- The value of exactly `n` octal digits, and what follows them. -/
def octalChars? : (n : Nat) → (v : Nat) → List Char → Option (Nat × List Char)
  | 0, v, cs => some (v, cs)
  | _ + 1, _, [] => none
  | n + 1, v, c :: cs =>
    match Escape.octalValue? (asciiOctet c) with
    | some d => octalChars? n (v * 8 + d) cs
    | none => none

theorem length_of_octalChars? {n v w : Nat} {cs r : List Char}
    (h : octalChars? n v cs = some (w, r)) : r.length ≤ cs.length := by
  induction n generalizing v cs with
  | zero => simp only [octalChars?, Option.some.injEq, Prod.mk.injEq] at h; simp [h.2]
  | succ n ih =>
    cases cs with
    | nil => simp [octalChars?] at h
    | cons c cs =>
      rw [octalChars?] at h
      split at h
      · have := ih h
        simp only [List.length_cons]
        omega
      · simp at h

/-- The octets of a numbered character. A number that is no character, but below the greatest, gives
the replacement character; a number of thirty-two bits with the highest one set gives its low octet;
any other number is refused. -/
def codeOctets? (v : Nat) : Option Bytes :=
  if Escape.isScalar v then some (Utf8.encode (Char.ofNat v))
  else if v < 0x110000 then some (Utf8.encode Utf8.replacement)
  else if 0x80000000 ≤ v then some [v.toUInt8]
  else none

/-- What an escape sequence of a string quoted by `q` stands for, and what follows it; the
characters start after the backslash. -/
def stringEscape? (q : Char) : List Char → Option (Bytes × List Char)
  | [] => none
  | c :: cs =>
    match Escape.control? (asciiOctet c) with
    | some b => some ([b], cs)
    | none =>
      match Escape.hexWidth? (asciiOctet c) with
      | some n =>
        match hexChars? n 0 cs with
        | none => none
        | some (v, r) => (codeOctets? v).map fun o => (o, r)
      | none =>
        if c = '\\' ∨ c = q then some (Utf8.encode c, cs)
        else
          match octalChars? 3 0 (c :: cs) with
          | none => none
          | some (v, r) => if v < 256 then some (Utf8.encode (Char.ofNat v), r) else none

theorem length_of_stringEscape? {q : Char} {cs r : List Char} {o : Bytes}
    (h : stringEscape? q cs = some (o, r)) : r.length ≤ cs.length := by
  cases cs with
  | nil => simp [stringEscape?] at h
  | cons c cs =>
    rw [stringEscape?] at h
    split at h
    · simp only [Option.some.injEq, Prod.mk.injEq] at h
      simp [← h.2]
    · split at h
      · split at h
        · simp at h
        · rename_i hr
          have := length_of_hexChars? hr
          simp only [Option.map_eq_some_iff, Prod.mk.injEq] at h
          obtain ⟨_, _, _, rfl⟩ := h
          simp only [List.length_cons]
          omega
      · split at h
        · simp only [Option.some.injEq, Prod.mk.injEq] at h
          simp [← h.2]
        · split at h
          · simp at h
          · rename_i hr
            have := length_of_octalChars? hr
            split at h
            · simp only [Option.some.injEq, Prod.mk.injEq] at h
              simpa [← h.2] using this
            · simp at h

/-- The content of a string after its opening quote `q`, and what follows its closing one. A line
feed is refused, and a carriage return is read as a line feed. -/
def stringBody? (q : Char) (cs : List Char) : Option (Bytes × List Char) :=
  match cs with
  | [] => none
  | c :: r =>
    if c = q then some ([], r)
    else if c = '\n' then none
    else if c = '\\' then
      match _h : stringEscape? q r with
      | none => none
      | some (o, t) => (stringBody? q t).map fun (body, rest) => (o ++ body, rest)
    else
      (stringBody? q r).map fun (body, rest) =>
        (Utf8.encode (if c = '\r' then '\n' else c) ++ body, rest)
termination_by cs.length
decreasing_by
  · have := length_of_stringEscape? _h
    simp only [List.length_cons]
    omega
  · simp

theorem length_of_stringBody? {q : Char} {cs r : List Char} {o : Bytes}
    (h : stringBody? q cs = some (o, r)) : r.length < cs.length := by
  induction hn : cs.length using Nat.strongRecOn generalizing cs o with
  | _ n ih =>
    cases cs with
    | nil => simp [stringBody?] at h
    | cons c cs =>
      rw [stringBody?] at h
      simp only [List.length_cons] at hn
      split at h
      · simp only [Option.some.injEq, Prod.mk.injEq] at h
        simp only [← h.2]
        omega
      · split at h
        · simp at h
        · split at h
          · split at h
            · simp at h
            · rename_i he
              have := length_of_stringEscape? he
              simp only [Option.map_eq_some_iff, Prod.mk.injEq, Prod.exists] at h
              obtain ⟨_, _, hb, _, rfl⟩ := h
              have := ih _ (by omega) hb rfl
              omega
          · simp only [Option.map_eq_some_iff, Prod.mk.injEq, Prod.exists] at h
            obtain ⟨_, _, hb, _, rfl⟩ := h
            have := ih _ (by omega) hb rfl
            omega

/-- The content of a raw string after its opening quote, and what follows its closing one. -/
def rawBody? (q : Char) : List Char → Option (List Char × List Char)
  | [] => none
  | c :: cs => if c = q then some ([], cs) else (rawBody? q cs).map fun (b, r) => (c :: b, r)

theorem length_of_rawBody? {q : Char} {cs b r : List Char} (h : rawBody? q cs = some (b, r)) :
    r.length < cs.length := by
  induction cs generalizing b with
  | nil => simp [rawBody?] at h
  | cons c cs ih =>
    rw [rawBody?] at h
    split at h
    · simp only [Option.some.injEq, Prod.mk.injEq] at h
      simp [← h.2]
    · simp only [Option.map_eq_some_iff, Prod.mk.injEq, Prod.exists] at h
      obtain ⟨_, _, hb, _, rfl⟩ := h
      have := ih hb
      simp only [List.length_cons]
      omega

/-! ### Numerals -/

/-- The digits of decimal numerals, with the separator. -/
def isDecimalChar (c : Char) : Bool := c.isDigit || c == '_'

/-- The digit class that the start of a numeral chooses, what was read to choose it, and the rest.
The first character of the numeral is `c`. -/
def numeralBase (c : Char) (cs : List Char) : (Char → Bool) × List Char × List Char :=
  match c, cs with
  | '0', d :: r =>
    if d = 'x' ∨ d = 'X' then
      (fun e => (hexValue? (asciiOctet e)).isSome || e == '_', ['0', d], r)
    else if d = 'o' ∨ d = 'O' then
      (fun e => (Escape.octalValue? (asciiOctet e)).isSome || e == '_', ['0', d], r)
    else if d = 'b' ∨ d = 'B' then (fun e => e == '0' || e == '1' || e == '_', ['0', d], r)
    else (isDecimalChar, ['0'], d :: r)
  | c, cs => (isDecimalChar, [c], cs)

/-- A point and digits, if a point follows. -/
def numeralFraction (digit : Char → Bool) : List Char → List Char × List Char
  | [] => ([], [])
  | c :: cs =>
    if c = '.' then ('.' :: (spanWhile digit cs).1, (spanWhile digit cs).2) else ([], c :: cs)

/-- An exponent mark, a sign and digits of the numeral's own class, if an exponent mark follows. -/
def numeralExponent (digit : Char → Bool) : List Char → List Char × List Char
  | [] => ([], [])
  | c :: cs =>
    if c = 'e' ∨ c = 'E' then
      let sign := skipOne ['+', '-'] cs
      let digits := spanWhile digit sign.2
      (c :: (sign.1 ++ digits.1), digits.2)
    else ([], c :: cs)

/-- A numeral that starts with `c` and goes on in `cs`, and what follows it. Two points in a row
after the digits are left alone, and no word character may follow directly. -/
def numeral? (c : Char) (cs : List Char) : Option (List Char × List Char) :=
  let base := numeralBase c cs
  let whole := spanWhile base.1 base.2.2
  if whole.2.take 2 = ['.', '.'] then some (base.2.1 ++ whole.1, whole.2)
  else
    let fraction := numeralFraction base.1 whole.2
    let exponent := numeralExponent base.1 fraction.2
    if exponent.2.head?.any isWordChar then none
    else some (base.2.1 ++ whole.1 ++ fraction.1 ++ exponent.1, exponent.2)

theorem length_numeralBase (c : Char) (cs : List Char) :
    (numeralBase c cs).2.2.length ≤ cs.length := by
  unfold numeralBase
  split
  · repeat' split
    all_goals simp
  · simp

theorem length_numeralFraction (digit : Char → Bool) (cs : List Char) :
    (numeralFraction digit cs).2.length ≤ cs.length := by
  cases cs with
  | nil => simp [numeralFraction]
  | cons c cs =>
    have := length_spanWhile digit cs
    rw [numeralFraction]
    split <;> simp only [List.length_cons] <;> omega

theorem length_numeralExponent (digit : Char → Bool) (cs : List Char) :
    (numeralExponent digit cs).2.length ≤ cs.length := by
  cases cs with
  | nil => simp [numeralExponent]
  | cons c cs =>
    have h₁ := length_skipOne ['+', '-'] cs
    have h₂ := length_spanWhile digit (skipOne ['+', '-'] cs).2
    rw [numeralExponent]
    split <;> simp only [List.length_cons] <;> omega

theorem length_of_numeral? {c : Char} {cs t r : List Char} (h : numeral? c cs = some (t, r)) :
    r.length ≤ cs.length := by
  have h₁ := length_numeralBase c cs
  have h₂ := length_spanWhile (numeralBase c cs).1 (numeralBase c cs).2.2
  rw [numeral?] at h
  dsimp only at h
  split at h
  · simp only [Option.some.injEq, Prod.mk.injEq] at h
    rw [← h.2]
    omega
  · split at h
    · simp at h
    · simp only [Option.some.injEq, Prod.mk.injEq] at h
      rw [← h.2]
      have h₃ := length_numeralFraction (numeralBase c cs).1
        (spanWhile (numeralBase c cs).1 (numeralBase c cs).2.2).2
      have h₄ := length_numeralExponent (numeralBase c cs).1 (numeralFraction (numeralBase c cs).1
        (spanWhile (numeralBase c cs).1 (numeralBase c cs).2.2).2).2
      omega

/-! ### Comments -/

/-- What follows the line feed that ends a comment, or nothing when the text ends first. -/
def lineComment : List Char → List Char
  | [] => []
  | c :: cs => if c = '\n' then cs else lineComment cs

theorem length_lineComment (cs : List Char) : (lineComment cs).length ≤ cs.length := by
  induction cs with
  | nil => simp [lineComment]
  | cons c cs ih =>
    rw [lineComment]
    split
    · simp
    · simp only [List.length_cons]; omega

/-- What follows the end of a bracketed comment, or `none` when the text ends first. -/
def blockComment? : List Char → Option (List Char)
  | [] => none
  | [_] => none
  | c :: d :: cs => if c = '*' ∧ d = '/' then some cs else blockComment? (d :: cs)

theorem length_of_blockComment? {cs r : List Char} (h : blockComment? cs = some r) :
    r.length ≤ cs.length := by
  induction cs with
  | nil => simp [blockComment?] at h
  | cons c cs ih =>
    cases cs with
    | nil => simp [blockComment?] at h
    | cons d cs =>
      rw [blockComment?] at h
      split at h
      · simp only [Option.some.injEq] at h
        simp only [List.length_cons, ← h]
        omega
      · have := ih h
        simp only [List.length_cons] at this ⊢
        omega

/-! ### Marks -/

/-- The marks of one character that no second one can extend. -/
def soloMark? (c : Char) : Option Mark :=
  match c with
  | '(' => some .leftParen
  | ')' => some .rightParen
  | '[' => some .leftBracket
  | ']' => some .rightBracket
  | '\x7b' => some .leftBrace
  | '\x7d' => some .rightBrace
  | ',' => some .comma
  | ';' => some .semicolon
  | '%' => some .modulo
  | '+' => some .plus
  | '-' => some .minus
  | '^' => some .power
  | _ => none

/-- The characters that extend a mark which starts with `c`, if such a mark exists. -/
def extensions? (c : Char) : Option (List Char) :=
  match c with
  | '|' => some ['|']
  | ':' => some [':']
  | '?' => some ['.', '?']
  | '.' => some ['.']
  | '#' => some ['#']
  | '&' | '!' | '=' | '*' | '<' | '>' => some ['&', '=', '*']
  | _ => none

/-- The mark of one or two characters. -/
def pairMark (c : Char) (second : List Char) : Mark :=
  match c, second with
  | '|', [] => .pipe
  | '|', _ => .orElse
  | ':', [] => .colon
  | ':', _ => .doubleColon
  | '?', [] => .question
  | '?', ['.'] => .questionDot
  | '?', _ => .coalesce
  | '.', [] => .dot
  | '.', _ => .range
  | '#', _ => .hash
  | '&', ['&'] => .andAlso
  | '!', [] => .bang
  | '!', ['='] => .unequal
  | '=', [] => .assign
  | '=', ['='] => .equal
  | '*', [] => .times
  | '*', ['*'] => .power
  | '<', [] => .less
  | '<', ['='] => .lessEqual
  | '>', [] => .greater
  | '>', ['='] => .greaterEqual
  | _, _ => .unknown

/-! ### The loop -/

/-- What stands at the start of the characters: nothing to keep, or one token. -/
structure Step (cs : List Char) where
  token : Option Token
  rest : List Char
  shorter : rest.length < cs.length

/-- The octets of the characters of a token. -/
def spelling (cs : List Char) : Bytes := Utf8.encodeAll cs

/-- The token of a word: a mark if it spells one. -/
def wordToken (cs : List Char) : Token :=
  match Mark.ofWord? (spelling cs) with
  | some m => .mark m
  | none => .word (spelling cs)

/-- One step of the lexer on a non-empty list of characters. -/
def step? (c : Char) (cs : List Char) : Option (Step (c :: cs)) :=
  if isBlank c then some ⟨none, cs, by simp⟩
  else if c = '"' ∨ c = '\'' then
    match h : stringBody? c cs with
    | none => none
    | some (s, r) =>
      some ⟨some (.string s), r, by
        have := length_of_stringBody? h
        simp only [List.length_cons]
        omega⟩
  else if c.toNat = 0x60 then
    match h : rawBody? c cs with
    | none => none
    | some (s, r) =>
      some ⟨some (.string (spelling s)), r, by
        have := length_of_rawBody? h; simp only [List.length_cons]; omega⟩
  else if c.isDigit ∨ (c = '.' ∧ cs.head?.any Char.isDigit) then
    match h : numeral? c cs with
    | none => none
    | some (s, r) =>
      some ⟨some (.number (spelling s)), r, by
        have := length_of_numeral? h; simp only [List.length_cons]; omega⟩
  else if c = '/' then
    match h : cs with
    | '/' :: r => some ⟨none, lineComment r, by
        have := length_lineComment r; simp only [List.length_cons]; omega⟩
    | '*' :: r =>
      match hr : blockComment? r with
      | none => none
      | some t => some ⟨none, t, by
          have := length_of_blockComment? hr; simp only [List.length_cons]; omega⟩
    | _ => some ⟨some (.mark .divide), cs, by simp [h]⟩
  else
    match soloMark? c with
    | some m => some ⟨some (.mark m), cs, by simp⟩
    | none =>
      match extensions? c with
      | some options =>
        some ⟨some (.mark (pairMark c (skipOne options cs).1)), (skipOne options cs).2, by
          have := length_skipOne options cs; simp only [List.length_cons]; omega⟩
      | none =>
        if isWordChar c then
          some ⟨some (wordToken (c :: (spanWhile isWordChar cs).1)), (spanWhile isWordChar cs).2, by
            have := length_spanWhile isWordChar cs; simp only [List.length_cons]; omega⟩
        else none

/-- The tokens of a list of characters. -/
def charTokens? (cs : List Char) : Option (List Token) :=
  match cs with
  | [] => some []
  | c :: r =>
    match step? c r with
    | none => none
    | some ⟨token, rest, _shorter⟩ =>
      match charTokens? rest with
      | none => none
      | some ts => some (token.toList ++ ts)
termination_by cs.length
decreasing_by exact _shorter

/-- The tokens of an expression, or `none` when its characters make none. -/
def tokens? (s : Bytes) : Option (List Token) := charTokens? (Utf8.lossy s)

end Expression

end LiveMarkup

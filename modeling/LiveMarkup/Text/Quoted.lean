import LiveMarkup.Text.Blank
import LiveMarkup.Text.Escape

/-!
# Quoted literals

Texts of the markup language stand between double or single quotes; a backslash keeps the octet
after it from ending the literal. `LiveMarkup.Quoted.take?` finds where a literal ends, and
`LiveMarkup.Quoted.content` says what it means.

The meaning has two layers. A double-quoted literal is first read strictly, with the escape
sequences of `LiveMarkup.Escape`; if that succeeds the result is its content. Otherwise, and for
every single-quoted literal, only an escaped quote and an escaped backslash are resolved and
everything else stands for itself.
-/

namespace LiveMarkup

namespace Quoted

/-- Whether an octet opens a literal of the markup language. -/
def isQuote (b : UInt8) : Bool := b == octet '"' || b == octet '\''

/-- Everything up to and including the quote `q` that ends a literal, and what follows it. -/
def closing? (q : UInt8) : Bytes → Option (Bytes × Bytes)
  | [] => none
  | [b] => if b ≠ octet '\\' ∧ b = q then some ([b], []) else none
  | b :: c :: s =>
    if b = octet '\\' then (closing? q s).map fun (l, r) => (b :: c :: l, r)
    else if b = q then some ([b], c :: s)
    else (closing? q (c :: s)).map fun (l, r) => (b :: l, r)

/-- The literal that a text begins with, quotes included, and what follows it. The first octet is
taken for the quote whatever it is. -/
def take? : Bytes → Option (Bytes × Bytes)
  | [] => none
  | q :: s => (closing? q s).map fun (l, r) => (q :: l, r)

/-! ### The strict reading -/

/-- What an escape sequence stands for in a literal quoted by `q`, and what follows it; the text
starts after the backslash. -/
def escape? (q : UInt8) : Bytes → Option (Bytes × Bytes)
  | [] => none
  | b :: s =>
    match Escape.control? b with
    | some c => some ([c], s)
    | none =>
      match Escape.hexWidth? b with
      | some n =>
        match Escape.hexRun? n 0 s with
        | none => none
        | some (v, r) =>
          if b = octet 'x' then some ([v.toUInt8], r)
          else if Escape.isScalar v then some (Utf8.encode (Char.ofNat v), r)
          else none
      | none =>
        if (Escape.octalValue? b).isSome then
          match Escape.octalRun? 3 0 (b :: s) with
          | none => none
          | some (v, r) => if v < 256 then some ([v.toUInt8], r) else none
        else if b = octet '\\' || (isQuote b && b == q) then some ([b], s)
        else none

theorem length_of_escape? {q : UInt8} {s r o : Bytes} (h : escape? q s = some (o, r)) :
    r.length ≤ s.length := by
  cases s with
  | nil => simp [escape?] at h
  | cons b s =>
    rw [escape?] at h
    split at h
    · simp only [Option.some.injEq, Prod.mk.injEq] at h
      simp [← h.2]
    · split at h
      · split at h
        · simp at h
        · rename_i hr
          have := Escape.length_of_hexRun? hr
          split at h
          · simp only [Option.some.injEq, Prod.mk.injEq] at h
            simp only [List.length_cons, ← h.2]
            omega
          · split at h
            · simp only [Option.some.injEq, Prod.mk.injEq] at h
              simp only [List.length_cons, ← h.2]
              omega
            · simp at h
      · split at h
        · split at h
          · simp at h
          · rename_i hr
            have := Escape.length_of_octalRun? hr
            split at h
            · simp only [Option.some.injEq, Prod.mk.injEq] at h
              simpa [← h.2] using this
            · simp at h
        · split at h
          · simp only [Option.some.injEq, Prod.mk.injEq] at h
            simp [← h.2]
          · simp at h

/-- The strict reading of what follows the opening quote `q`: escape sequences are resolved, a stray
octet becomes the replacement character, a line feed is refused, and the closing quote has to be the
last octet. -/
def strict? (q : UInt8) (s : Bytes) : Option Bytes :=
  match s with
  | [] => none
  | b :: r =>
    if b = q then if r.isEmpty then some [] else none
    else if b = octet '\n' then none
    else if b = octet '\\' then
      match _h : escape? q r with
      | none => none
      | some (o, t) => (strict? q t).map (o ++ ·)
    else
      match _h : Utf8.uncons? (b :: r) with
      | none => none
      | some (c, t) => (strict? q t).map (Utf8.encode (c.getD Utf8.replacement) ++ ·)
termination_by s.length
decreasing_by
  · have := length_of_escape? _h
    simp only [List.length_cons]
    omega
  · exact Utf8.length_of_uncons? _h

/-! ### The plain reading -/

/-- Resolves an escaped `q` and an escaped backslash; any other backslash stands for itself. -/
def plain (q : UInt8) : Bytes → Bytes
  | [] => []
  | [b] => [b]
  | b :: c :: s =>
    if b = octet '\\' ∧ c = q then q :: plain q s
    else if b = octet '\\' ∧ c = octet '\\' then octet '\\' :: plain q s
    else b :: plain q (c :: s)

/-- The content of a literal. What is not enclosed in two equal quotes is its own content. -/
def content (l : Bytes) : Bytes :=
  match l with
  | [] => []
  | q :: s =>
    if isQuote q && s.getLast? == some q then
      match (if q = octet '"' then strict? q s else none) with
      | some t => t
      | none => plain q s.dropLast
    else l

/-- The content of a value: of the literal if the value is one and nothing else, and the value
itself otherwise. White space around it does not count. -/
def value (s : Bytes) : Bytes :=
  let v := s.trim
  if (v.head?.any isQuote) && (take? v).any fun (_, r) => r.isEmpty then content v else v

/-! ### Writing -/

/-- A backslash in front of every `q` and every backslash. -/
def escapeOnly (q : UInt8) (t : Bytes) : Bytes :=
  t.flatMap fun b => if b = q ∨ b = octet '\\' then [octet '\\', b] else [b]

/-- The literal for `t` between the quotes `q`, with the fewest escapes. -/
def literal (q : UInt8) (t : Bytes) : Bytes := q :: (escapeOnly q t ++ [q])

end Quoted

end LiveMarkup

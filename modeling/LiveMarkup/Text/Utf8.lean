import LiveMarkup.Text.Bytes

/-!
# Characters of a text

A text is read as characters from the left: a well-formed UTF-8 sequence is one character, and an
octet that starts none counts as one character without a value. `LiveMarkup.Utf8.uncons?` takes the
first character off, and everything else is recursion on what it leaves.
-/

namespace LiveMarkup

namespace Utf8

/-- The octets of a character. -/
def encode (c : Char) : Bytes := String.utf8EncodeChar c

/-- The octets of a list of characters. -/
def encodeAll (cs : List Char) : Bytes := cs.flatMap encode

/-- The character that stands for whatever is not one. -/
def replacement : Char := '�'

/-- The character that a text begins with, if its first octets encode one. -/
def head? (s : Bytes) : Option Char := (s.take 4).toByteArray.utf8DecodeChar? 0

/-- The first character of a text and what follows it. An octet that starts no character is taken
off alone. -/
def uncons? : Bytes → Option (Option Char × Bytes)
  | [] => none
  | b :: s =>
    if b < 0x80 then some (some (Char.ofNat b.toNat), s)
    else match head? (b :: s) with
      | some c => some (some c, s.drop (c.utf8Size - 1))
      | none => some (none, s)

theorem length_of_uncons? {s r : Bytes} {c : Option Char} (h : uncons? s = some (c, r)) :
    r.length < s.length := by
  cases s with
  | nil => simp [uncons?] at h
  | cons b s =>
    rw [uncons?] at h
    split at h
    · simp only [Option.some.injEq, Prod.mk.injEq] at h
      simp [← h.2]
    · split at h
      all_goals
        simp only [Option.some.injEq, Prod.mk.injEq] at h
        rw [← h.2]
        simp only [List.length_drop, List.length_cons]
        omega

/-- The characters of a text; `none` stands for an octet that starts no character. -/
def chars (s : Bytes) : List (Option Char) :=
  match _h : uncons? s with
  | none => []
  | some (c, r) => c :: chars r
termination_by s.length
decreasing_by exact length_of_uncons? _h

/-- How many characters a text has, stray octets counted one by one. -/
def count (s : Bytes) : Nat := (chars s).length

/-- Whether a text is well-formed UTF-8. -/
def isValid (s : Bytes) : Bool := (chars s).all Option.isSome

/-- The characters of a text, with the replacement character for every stray octet. -/
def lossy (s : Bytes) : List Char := (chars s).map fun c => c.getD replacement

/-- The text with every stray octet replaced, so that the result is well-formed. -/
def repair (s : Bytes) : Bytes := encodeAll (lossy s)

end Utf8

/-! ### Sets of characters -/

/-- Whether one of the closed intervals of code points holds `n`. -/
def inIntervals (intervals : List (Nat × Nat)) (n : Nat) : Bool :=
  intervals.any fun r => r.1 ≤ n && n ≤ r.2

end LiveMarkup

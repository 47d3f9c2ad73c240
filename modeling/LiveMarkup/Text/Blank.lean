import LiveMarkup.Text.Utf8

/-!
# White space

White space is a property of characters: the ASCII blanks and the spaces and separators of other
scripts. Trimming, counting the indent of a line and splitting a list of words all go by it.
-/

namespace LiveMarkup

/-- The white-space characters, as closed intervals of code points. -/
def blankIntervals : List (Nat × Nat) :=
  [(0x09, 0x0d), (0x20, 0x20), (0x85, 0x85), (0xa0, 0xa0), (0x1680, 0x1680), (0x2000, 0x200a),
   (0x2028, 0x2029), (0x202f, 0x202f), (0x205f, 0x205f), (0x3000, 0x3000)]

/-- Whether `c` is white space. -/
def isBlank (c : Char) : Bool := inIntervals blankIntervals c.toNat

namespace Bytes

/-- Whether what was read as one character is white space; a stray octet is not. -/
def isBlank? (c : Option Char) : Bool := c.any isBlank

/-- The text without the white space in front. -/
def trimStart (s : Bytes) : Bytes :=
  match _h : Utf8.uncons? s with
  | none => s
  | some (c, r) => if isBlank? c then trimStart r else s
termination_by s.length
decreasing_by exact Utf8.length_of_uncons? _h

/-- The text without the white space at its end. -/
def trimEnd (s : Bytes) : Bytes :=
  match _h : Utf8.uncons? s with
  | none => []
  | some (c, r) =>
    let t := trimEnd r
    if t.isEmpty && isBlank? c then [] else s.take (s.length - r.length) ++ t
termination_by s.length
decreasing_by exact Utf8.length_of_uncons? _h

/-- The text without the white space around it. -/
def trim (s : Bytes) : Bytes := trimEnd (trimStart s)

/-- The number of white-space characters a text begins with; a tab is one. -/
def indentWidth (s : Bytes) : Nat :=
  match _h : Utf8.uncons? s with
  | none => 0
  | some (c, r) => if isBlank? c then indentWidth r + 1 else 0
termination_by s.length
decreasing_by exact Utf8.length_of_uncons? _h

/-- The words of a text, given the part of a word already read. -/
def wordsFrom (word : Bytes) (s : Bytes) : List Bytes :=
  match _h : Utf8.uncons? s with
  | none => if word.isEmpty then [] else [word]
  | some (c, r) =>
    if isBlank? c then
      if word.isEmpty then wordsFrom [] r else word :: wordsFrom [] r
    else wordsFrom (word ++ s.take (s.length - r.length)) r
termination_by s.length
decreasing_by all_goals exact Utf8.length_of_uncons? _h

/-- The words of a text: its longest parts without white space. -/
def words (s : Bytes) : List Bytes := wordsFrom [] s

end Bytes

end LiveMarkup

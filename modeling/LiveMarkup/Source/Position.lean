import LiveMarkup.Text.Bytes

/-!
# Positions in a source

A position is a line number and a column number, both counted from one; a column counts characters.
The position with two zeros means that there is none. Line and column numbers, as all sizes and
counters, are integers that wrap around at 64 bits.
-/

namespace LiveMarkup

/-- The signed 64-bit integer that an integer is congruent to. -/
def wrap64 (n : Int) : Int := Int.bmod n 0x10000000000000000

/-- A place in a source. -/
structure Position where
  line : Int
  column : Int
  deriving DecidableEq, Repr

namespace Position

/-- Whether a position is missing. -/
def isZero (p : Position) : Bool := p.line == 0 && p.column == 0

/-- A position as messages show it. -/
def text (p : Position) : Bytes :=
  if p.isZero then utf8 "-" else decimalInt p.line ++ utf8 ":" ++ decimalInt p.column

/-- The position `n` characters further on the same line. -/
def advance (p : Position) (n : Int) : Position := { p with column := wrap64 (p.column + n) }

end Position

end LiveMarkup

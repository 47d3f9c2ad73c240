import LiveMarkup.Source.Position
import LiveMarkup.Text.Utf8

/-!
# The lines around a position

A report shows the source lines around a position, numbered, with a caret under the column.
-/

namespace LiveMarkup

/-- The lines around a position, with their numbers. -/
structure SourceContext where
  lines : List (Int × Bytes)
  position : Position
  deriving DecidableEq, Repr

namespace SourceContext

/-- The last line number shown: `radius` lines further on, but not beyond the last line. -/
def lastShown (line radius : Int) (count : Nat) : Int := min (wrap64 (line + radius)) count

/-- The lines of `src` that are at most `radius` lines away from a position. There is no context for
a line that the source does not have. -/
def around? (src : Bytes) (p : Position) (radius : Int) : Option SourceContext :=
  let all := src.splitOn (octet '\n')
  if p.line < 1 ∨ all.length < p.line then none
  else
    let r := max radius 0
    let first := max (p.line - r) 1
    let last := lastShown p.line r all.length
    let numbered := all.zipIdx.map fun (text, i) => ((i + 1 : Int), Bytes.dropReturn text)
    some ⟨numbered.filter fun l => first ≤ l.1 && l.1 ≤ last, p⟩

/-- A text with spaces in front, so that it is at least `width` octets long. -/
def padded (width : Nat) (s : Bytes) : Bytes :=
  List.replicate (width - s.length) (octet ' ') ++ s

/-- The lines of a report, with a caret line after the line of the position if its column is
positive. -/
def text (c : SourceContext) : Bytes :=
  match c.lines.getLast? with
  | none => []
  | some final =>
    let width := (decimalInt final.1).length
    c.lines.flatMap fun l =>
      padded width (decimalInt l.1) ++ utf8 " | " ++ l.2 ++ utf8 "\n" ++
        (if l.1 = c.position.line ∧ 0 < c.position.column then
          padded width [] ++ utf8 " | "
            ++ List.replicate (c.position.column - 1).toNat (octet ' ') ++ utf8 "^\n"
        else [])

end SourceContext

end LiveMarkup

import LiveMarkup.Source.Position
import LiveMarkup.Text.Blank

/-!
# Significant lines

A source is a list of lines, of which blank lines and comments do not count. What is left of a line
is its number, its indent and its text without white space around it.

`LiveMarkup.Line.ofSource` lists the significant lines of a source.
-/

namespace LiveMarkup

/-- A significant line. -/
structure Line where
  /-- The number of the line in the source, counted from one. -/
  number : Nat
  /-- The number of white-space characters in front. -/
  indent : Nat
  /-- The text between the white space. -/
  text : Bytes
  deriving DecidableEq, Repr

namespace Line

/-- The position of the first character of the text. -/
def position (l : Line) : Position := ⟨l.number, l.indent + 1⟩

/-- What starts a comment. -/
def commentMark : Bytes := utf8 "//"

/-- Whether the text of a line counts: it is neither blank nor a comment. -/
def isSignificant (text : Bytes) : Bool :=
  !text.isEmpty && (Bytes.after? commentMark text).isNone

/-- The line that the text between two line feeds is, if it counts. -/
def ofRaw? (number : Nat) (raw : Bytes) : Option Line :=
  let body := raw.dropReturn
  let text := body.trim
  if isSignificant text then some ⟨number, body.indentWidth, text⟩ else none

/-- The significant lines among consecutive lines of which the first has the given number. -/
def ofRaws (number : Nat) : List Bytes → List Line
  | [] => []
  | raw :: r =>
    match ofRaw? number raw with
    | some l => l :: ofRaws (number + 1) r
    | none => ofRaws (number + 1) r

/-- The significant lines of a source. -/
def ofSource (src : Bytes) : List Line := ofRaws 1 (src.splitOn (octet '\n'))

end Line

end LiveMarkup

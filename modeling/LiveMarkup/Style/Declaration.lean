import LiveMarkup.Style.PropertyName
import LiveMarkup.Text.Nesting
import LiveMarkup.Text.Quoted

/-!
# Style declarations

A style is a list of declarations, each a property and a value. Declarations are separated by
semicolons; a value may be quoted.
-/

namespace LiveMarkup

/-- A property and its value. -/
structure StyleProperty where
  name : Bytes
  value : Bytes
  deriving DecidableEq, Repr

namespace Style

/-- The text without one semicolon at its end and the blanks before it. -/
def dropTerminator (s : Bytes) : Bytes :=
  if s.getLast? = some (octet ';') then
    (s.dropLast.reverse.dropWhile isPatternBlank).reverse
  else s

/-- Whether a value can stand in a declaration: it is not empty and could not end the declaration.
-/
def isStorable (v : Bytes) : Bool :=
  !v.isEmpty && v.all fun b => b != octet ';' && b != 0x7b && b != 0x7d

/-- Whether an octet can start the name of a property. -/
def isNameStart (b : UInt8) : Bool := isAlphaOctet b || b == octet '_' || b == octet '-'

/-- The declaration that a text is: a name, a colon and a value on one line. -/
def parse? (s : Bytes) : Option StyleProperty :=
  match s.trim with
  | [] => none
  | b :: r =>
    if isNameStart b then
      match (r.dropWhile isNameOctet).dropWhile isPatternBlank with
      | [] => none
      | c :: t =>
        let written := dropTerminator (t.dropWhile isPatternBlank)
        let value := Quoted.value written
        if c = octet ':' ∧ octet '\n' ∉ written ∧ isStorable value then
          some ⟨propertyName (b :: r.takeWhile isNameOctet), value⟩
        else none
    else none

/-- The parts of a list of declarations that are not blank, each as a declaration or as it is
written. -/
def entries (s : Bytes) : List (Bytes ⊕ StyleProperty) :=
  (Nesting.split (octet ';') s).filterMap fun d =>
    if d.trim.isEmpty then none
    else
      match parse? d with
      | some p => some (.inr p)
      | none => some (.inl d.trim)

/-- The declarations of a list, and the parts of it that are none. -/
def parseList (s : Bytes) : List StyleProperty × List Bytes :=
  ((entries s).filterMap Sum.getRight?, (entries s).filterMap Sum.getLeft?)

/-- The declarations of an element after one more. A property that is there already takes the new
value and keeps its place. -/
def set (p : StyleProperty) : List StyleProperty → List StyleProperty
  | [] => [p]
  | q :: qs => if q.name = p.name then { q with value := p.value } :: qs else q :: set p qs

/-- The declarations of an element after a list of more. -/
def setAll (ps qs : List StyleProperty) : List StyleProperty := ps.foldl (fun r p => set p r) qs

/-- The text of a list of declarations. -/
def text (ps : List StyleProperty) : Bytes :=
  List.intercalate (utf8 "; ") (ps.map fun p => p.name ++ utf8 ": " ++ p.value)

/-! ### Style directives -/

/-- A line that starts a style block. -/
inductive Directive
  /-- The declarations are on the lines below. -/
  | block
  /-- The declarations are on the line itself. -/
  | inline (declarations : Bytes)
  deriving DecidableEq, Repr

/-- The directive that a line is: `style`, a brace, and either nothing or something that ends with a
brace. -/
def Directive.parse? (s : Bytes) : Option Directive :=
  match Bytes.after? (utf8 "style") s with
  | none => none
  | some r =>
    match r.dropWhile isPatternBlank with
    | [] => none
    | b :: t =>
      if b = 0x7b then
        if t.isEmpty then some .block
        else if t.getLast? = some 0x7d ∧ octet '\n' ∉ t then some (.inline t.dropLast)
        else none
      else none

end Style

end LiveMarkup

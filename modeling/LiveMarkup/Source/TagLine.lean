import LiveMarkup.Text.Nesting
import LiveMarkup.Text.Quoted

/-!
# Tag lines and text lines

A tag line is a tag with classes and ids, an attribute list, a quoted text, a binding and a block
mark, each of them optional but the tag. A text line is a quoted text with an optional binding.

`LiveMarkup.TagLine.parse?` and `LiveMarkup.TextLine.parse?` take a whole line apart; they are
`none` if something is left over.
-/

namespace LiveMarkup

/-! ### Pieces of a line -/

/-- The white space between the parts of a line is skipped. -/
def skipGap (s : Bytes) : Bytes := s.dropWhile isGapOctet

/-- The octets of a tag after its first one. -/
def isTagOctet (b : UInt8) : Bool := isLowerOctet b || isDigitOctet b || b == octet '-'

/-- The first octet of a binding. -/
def isBindingStart (b : UInt8) : Bool := isLowerOctet b || b == octet '_'

/-- A word at the start of a text: an octet of one class, then octets of another, and what follows
them. There may be none. -/
def takeWord (first more : UInt8 → Bool) : Bytes → Bytes × Bytes
  | [] => ([], [])
  | b :: r => if first b then (b :: r.takeWhile more, r.dropWhile more) else ([], b :: r)

/-- The tag at the start of a text: a small letter, then small letters, digits and dashes. -/
def takeTag (s : Bytes) : Bytes × Bytes := takeWord isLowerOctet isTagOctet s

/-- The name at the start of a text that a binding may have: a small letter or an underscore, then
letters, digits and underscores. -/
def takeBinding (s : Bytes) : Bytes × Bytes := takeWord isBindingStart isIdentOctet s

theorem takeWord_append (first more : UInt8 → Bool) (s : Bytes) :
    (takeWord first more s).1 ++ (takeWord first more s).2 = s := by
  cases s with
  | nil => rfl
  | cons b r =>
    by_cases h : first b <;> simp [takeWord, h, List.takeWhile_append_dropWhile]

/-- A class or an id directly after the tag. -/
inductive Shorthand
  | className (name : Bytes)
  | identifier (name : Bytes)
  deriving DecidableEq, Repr

namespace Shorthand

/-- The name behind the mark. -/
def name : Shorthand → Bytes
  | .className n => n
  | .identifier n => n

/-- The shorthand that a mark in front of a name makes. -/
def ofMark? (mark : UInt8) (name : Bytes) : Option Shorthand :=
  if mark = octet '.' then some (.className name)
  else if mark = octet '#' then some (.identifier name)
  else none

/-- The shorthands at the start of a text and what follows them. A mark without a name is an error.
-/
def takeAll? (s : Bytes) : Option (List Shorthand × Bytes) :=
  match s with
  | [] => some ([], [])
  | mark :: r =>
    match ofMark? mark (r.takeWhile isNameOctet) with
    | none => some ([], mark :: r)
    | some sh =>
      if (r.takeWhile isNameOctet).isEmpty then none
      else
        match takeAll? (r.dropWhile isNameOctet) with
        | none => none
        | some (shs, t) => some (sh :: shs, t)
termination_by s.length
decreasing_by
  have := (List.dropWhile_suffix isNameOctet (l := r)).length_le
  simp only [List.length_cons]
  omega

end Shorthand

/-- An attribute list as written. -/
structure AttributeList where
  /-- What stands after the opening parenthesis, up to the closing one or to the end of the line. -/
  text : Bytes
  /-- Whether there is a closing parenthesis. -/
  closed : Bool
  deriving DecidableEq, Repr

namespace AttributeList

/-- The attribute list at the start of a text, if there is one, and what follows it. A list that is
not closed takes all that is left. -/
def take : Bytes → Option AttributeList × Bytes
  | [] => (none, [])
  | b :: r =>
    if b = octet '(' then
      match Nesting.close? (b :: r) with
      | some (before, after) => (some ⟨before.drop 1, true⟩, after)
      | none => (some ⟨r, false⟩, [])
    else (none, b :: r)

end AttributeList

/-- The quoted text at the start of a line, if there is one, and what follows it and its white
space. A literal that does not end is an error. -/
def takeText? (s : Bytes) : Option (Option Bytes × Bytes) :=
  if s.head?.any Quoted.isQuote then
    match Quoted.take? s with
    | none => none
    | some (l, r) => some (some (Quoted.content l), skipGap r)
  else some (none, s)

/-- The binding at the start of a text, if there is one, and what follows it and its white space. -/
def takeBind (s : Bytes) : Option Bytes × Bytes :=
  let w := takeBinding s
  if w.1.isEmpty then (none, s) else (some w.1, skipGap w.2)

/-- Whether a block mark at the start of a text leaves a block open, and what follows the mark. A
mark that is closed at once leaves none. -/
def takeBlock : Bytes → Bool × Bytes
  | [] => (false, [])
  | b :: r =>
    if b = 0x7b then
      match skipGap r with
      | [] => (true, [])
      | c :: t => if c = 0x7d then (false, skipGap t) else (true, c :: t)
    else (false, b :: r)

/-! ### Tag lines -/

/-- The parts of a tag line. -/
structure TagLine where
  tag : Bytes
  /-- The classes and ids after the tag, in order. -/
  shorthands : List Shorthand := []
  attributes : Option AttributeList := none
  /-- The content of the quoted text. -/
  text : Option Bytes := none
  binding : Option Bytes := none
  /-- Whether the line opens a block. -/
  block : Bool := false
  deriving DecidableEq, Repr

namespace TagLine

/-- The classes, in order. -/
def classes (t : TagLine) : List Bytes :=
  t.shorthands.filterMap fun
    | .className n => some n
    | .identifier _ => none

/-- The id: the last one counts. -/
def identifier? (t : TagLine) : Option Bytes :=
  (t.shorthands.filterMap fun
    | .className _ => none
    | .identifier n => some n).getLast?

/-- The number of octets before the attribute list. They are all ASCII, so it is the number of
characters as well. -/
def headLength (t : TagLine) : Nat :=
  t.shorthands.foldl (fun n sh => n + sh.name.length + 1) t.tag.length

/-- The parts of a line that is a tag line. -/
def parse? (s : Bytes) : Option TagLine :=
  let tag := takeTag s
  if tag.1.isEmpty then none
  else
    match Shorthand.takeAll? tag.2 with
    | none => none
    | some (shorthands, r) =>
      let list := AttributeList.take r
      match takeText? (skipGap list.2) with
      | none => none
      | some (text, r') =>
        let bind := takeBind r'
        let block := takeBlock bind.2
        if block.2.isEmpty then
          some {
            tag := tag.1
            shorthands
            attributes := list.1
            text
            binding := bind.1
            block := block.1 }
        else none

end TagLine

/-! ### Text lines -/

/-- The parts of a text line. -/
structure TextLine where
  text : Bytes
  binding : Option Bytes := none
  deriving DecidableEq, Repr

namespace TextLine

/-- The parts of a line that is a text line. The first octet is the quote, whatever it is. -/
def parse? (s : Bytes) : Option TextLine :=
  match Quoted.take? s with
  | none => none
  | some (l, r) =>
    let bind := takeBind (skipGap r)
    if bind.2.isEmpty then some ⟨Quoted.content l, bind.1⟩ else none

end TextLine

end LiveMarkup

import LiveMarkup.Tree.Outline

/-!
# Linked forests

The same trees as cells that are linked to their parent, to their first and last child and to their
neighbours, which can be built in any order. A cell is known by its index.

`LiveMarkup.Linking.append` puts a cell below another one, link by link;
`LiveMarkup.LinkedForest.children` follows the links of the children, and
`LiveMarkup.LinkedForest.node` is the tree below a cell.
-/

namespace LiveMarkup

/-- An element and its links. -/
structure Cell where
  element : Element
  parent : Option Nat := none
  firstChild : Option Nat := none
  lastChild : Option Nat := none
  previous : Option Nat := none
  next : Option Nat := none
  deriving DecidableEq, Repr

/-- Cells that are linked to each other. -/
structure LinkedForest where
  cells : List Cell := []
  deriving DecidableEq, Repr

/-- Why a cell cannot be put below another one. -/
inductive LinkError
  /-- One of the two cells is missing. -/
  | missing
  /-- The child has a parent already, or a neighbour. -/
  | attached
  deriving DecidableEq, Repr

namespace LinkError

/-- The wording of an error; a missing cell has none. -/
def message? : LinkError → Option Bytes
  | .missing => none
  | .attached => some (utf8 "nml: AppendChild called for an attached child Node")

end LinkError

namespace LinkedForest

/-- A cell. -/
def get? (f : LinkedForest) (i : Nat) : Option Cell := f.cells[i]?

/-- The forest with one cell changed. -/
def modify (f : LinkedForest) (i : Nat) (g : Cell → Cell) : LinkedForest :=
  ⟨f.cells.modify i g⟩

/-- The forest with one more cell, whose index is the number of cells before. -/
def add (f : LinkedForest) (e : Element) : LinkedForest := ⟨f.cells ++ [{ element := e }]⟩

/-- Whether a cell has a parent or a neighbour. -/
def isAttached (c : Cell) : Bool := c.parent.isSome || c.previous.isSome || c.next.isSome

end LinkedForest

/-- A computation that follows the links of a forest and changes them. It may break off, and the
forest is then left as it was at that moment. -/
abbrev Linking := ExceptT LinkError (StateM LinkedForest)

namespace Linking

/-- The cell that a link leads to. -/
def cell (link : Option Nat) : Linking Cell := do
  match link.bind (← get).get? with
  | some x => pure x
  | none => throw .missing

/-- Changes the cell that a link leads to. -/
def change (link : Option Nat) (g : Cell → Cell) : Linking Unit := do
  let _ ← cell link
  modify fun f => link.elim f fun i => f.modify i g

/-- Puts a cell below another one, after its children. Either may be missing. -/
def append (parent child : Option Nat) : Linking Unit := do
  if LinkedForest.isAttached (← cell child) then throw .attached
  let last := (← cell parent).lastChild
  if last.isSome then
    change last fun x => { x with next := child }
  else
    change parent fun x => { x with firstChild := child }
  change parent fun x => { x with lastChild := child }
  change child fun x => { x with parent, previous := last }

end Linking

namespace LinkedForest

/-- What becomes of putting a cell below another one, and the forest afterwards. -/
def attempt (f : LinkedForest) (parent child : Option Nat) : Except LinkError Unit × LinkedForest :=
  (Linking.append parent child).run.run f

/-- The forest with a cell put below another one. -/
def append (f : LinkedForest) (parent child : Option Nat) : Except LinkError LinkedForest :=
  let r := f.attempt parent child
  r.1.map fun _ => r.2

/-- The cells from `start` on, following the links to the next neighbour over at most `n` cells. -/
def chain (f : LinkedForest) : (n : Nat) → (start : Option Nat) → List Nat
  | 0, _ => []
  | _, none => []
  | n + 1, some i => i :: chain f n ((f.get? i).bind (·.next))

/-- The children of a cell. No chain of links is longer than the number of cells. -/
def children (f : LinkedForest) (i : Nat) : List Nat :=
  f.chain f.cells.length ((f.get? i).bind (·.firstChild))

/-- The tree below a cell, down to `depth` generations. -/
def nodeWithin (f : LinkedForest) : (depth : Nat) → (i : Nat) → Node
  | 0, _ => .comment
  | d + 1, i =>
    match f.get? i with
    | some c => .element c.element ((f.children i).map (f.nodeWithin d))
    | none => .comment

/-- The tree below a cell. No branch is longer than the number of cells. -/
def node (f : LinkedForest) (i : Nat) : Node := f.nodeWithin f.cells.length i

end LinkedForest

end LiveMarkup

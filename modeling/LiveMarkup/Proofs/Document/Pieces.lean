import LiveMarkup.Proofs.Document.Builder
import LiveMarkup.Proofs.Document.Marks

/-!
# The document of a forest, node by node

A document is compared with its source in pre-order. `LiveMarkup.Markup.pieces` lists the elements
and the texts of a document parents before children, each without what is below it, and
`LiveMarkup.Node.items` lists the nodes of the source in the same way. An element that cannot have
content is followed by its content instead of holding it: in pre-order that makes no difference,
which is why these lists can be compared at all.

The main statement is `LiveMarkup.Document.piecesAll_ofNodes`: the pieces of a document are those of
its nodes, one node after another, where each element is written with the number of live elements in
front of it. `LiveMarkup.Document.filter_pieces_document` is about the marked pieces of the whole
document; the head, the body element and the script add none.
-/

namespace LiveMarkup

/-! ### Pieces -/

/-- A node of a document without what is below it. -/
inductive Piece
  | element (name : Bytes) (attributes : List Attribute)
  | text (text : Bytes)
  deriving DecidableEq, Repr

namespace Piece

/-- The attributes of a piece; a text has none. -/
def attributes : Piece → List Attribute
  | .element _ as => as
  | .text _ => []

/-- Whether a piece is an element with a mark, but for the case of letters. -/
def isMarked (mark : Bytes) (p : Piece) : Bool := !(Attribute.marks mark p.attributes).isEmpty

/-- A text without a mark, whatever the mark is. -/
@[simp] theorem isMarked_text (mark s : Bytes) : isMarked mark (.text s) = false := rfl

/-- The placeholder of a state. -/
def placeholder (x : Bytes) : Piece := .element (utf8 "span") [⟨bindingMark, x⟩]

/-- A text and a binding: the placeholder if the state is declared, and its name if not. -/
def content (states : StateTable) (text : Bytes) (binding : Option Bytes) : List Piece :=
  (if text.isEmpty then [] else [.text text]) ++
    (binding.map fun x => if states.has x then placeholder x else .text x).toList

theorem mem_content_cases {states : StateTable} {text : Bytes} {binding : Option Bytes} {p : Piece}
    (h : p ∈ content states text binding) :
    p = .text text ∨ ∃ x, binding = some x ∧ (p = placeholder x ∨ p = .text x) := by
  rw [content, List.mem_append] at h
  rcases h with h | h
  · split at h
    · exact absurd h (by simp)
    · exact Or.inl (List.mem_singleton.mp h)
  · obtain ⟨x, hx, rfl⟩ := Option.map_eq_some_iff.mp (Option.mem_toList.mp h)
    refine Or.inr ⟨x, hx, ?_⟩
    split
    · exact Or.inl rfl
    · exact Or.inr rfl

/-- The element of a node, written with a number. -/
def own? (id : Nat) (i : Item) : Option Piece :=
  i.element?.map fun e => .element (Document.shownTag e) (Document.attributes id e)

/-- The pieces of a node: its element and its content. -/
def ofItem (states : StateTable) (id : Nat) (i : Item) : List Piece :=
  (own? id i).toList ++ content states i.literal i.binding?

end Piece

namespace Markup

mutual

/-- A node of a document and all nodes below it, parents before children. -/
def pieces : Markup → List Piece
  | .element name as cs => .element name as :: piecesAll cs
  | .text s => [.text s]

/-- The nodes of a list of trees, parents before children. -/
def piecesAll : List Markup → List Piece
  | [] => []
  | m :: ms => pieces m ++ piecesAll ms

end

@[simp] theorem piecesAll_nil : piecesAll [] = [] := rfl

@[simp] theorem piecesAll_element (name : Bytes) (as : List Attribute) (cs ms : List Markup) :
    piecesAll (.element name as cs :: ms) =
      .element name as :: (piecesAll cs ++ piecesAll ms) := rfl

@[simp] theorem piecesAll_text (s : Bytes) (ms : List Markup) :
    piecesAll (.text s :: ms) = .text s :: piecesAll ms := rfl

@[simp] theorem piecesAll_append (ms ns : List Markup) :
    piecesAll (ms ++ ns) = piecesAll ms ++ piecesAll ns := by
  induction ms with
  | nil => rfl
  | cons m ms ih => simp [piecesAll, ih]

end Markup

namespace Document

open Markup

/-! ### The pieces of a forest -/

theorem piecesAll_content (states : StateTable) (text : Bytes) (binding : Option Bytes) :
    piecesAll (content states text binding) = Piece.content states text binding := by
  have htext : piecesAll (if text.isEmpty then [] else [Markup.text text]) =
      if text.isEmpty then [] else [Piece.text text] := by
    split <;> rfl
  cases binding with
  | none => rw [content, Piece.content, piecesAll_append, htext]; rfl
  | some x =>
    rw [content, Piece.content, piecesAll_append, htext, Option.map_some]
    cases states.has x <;> rfl

/-- Whether an element holds its content or is followed by it, the pieces are the same. -/
theorem piecesAll_ofNode_element (states : StateTable) (b : Builder) (e : Element)
    (cs : List Node) :
    piecesAll (ofNode states b (.element e cs)).1 = Piece.ofItem states b.next (.element e) ++
      piecesAll (ofNodes states (b.addItem states (.element e)) cs).1 := by
  have hadd : (b.addElement e).addBinding states e.binding = b.addItem states (.element e) := rfl
  rw [ofNode, hadd]
  cases e.isVoid <;>
    simp [piecesAll_content, Piece.ofItem, Piece.own?, Item.element?, Item.literal, Item.binding?]

/-- **The pieces of a forest are those of its nodes**, one node after another. -/
theorem piecesAll_ofNodes (states : StateTable) (b : Builder) (ns : List Node) :
    piecesAll (ofNodes states b ns).1 =
      (Item.numbered b.next (Node.items ns)).flatMap fun y => Piece.ofItem states y.1 y.2 := by
  induction ns using Node.forest_induction generalizing b with
  | nil => rfl
  | element e cs ns ihcs ihns =>
    -- The forest after the element goes on with the number that its children have left.
    rw [ofNodes, piecesAll_append, piecesAll_ofNode_element, snd_ofNode_element, snd_ofNodes, ihcs,
      ihns, Builder.next_addAll, Builder.next_addItem, Node.items_element, Item.numbered,
      Item.numbered_append, List.flatMap_cons, List.flatMap_append, List.append_assoc]
  | text t ns ih =>
    have hnext := (Builder.addBinding_cases states b t.binding).1
    rw [ofNodes, ofNode, piecesAll_append, piecesAll_content, ih, hnext, Node.items_text,
      Item.numbered, List.flatMap_cons]
    rfl
  | comment ns ih =>
    rw [ofNodes, ofNode, List.nil_append, ih, Node.items_comment, Item.numbered, List.flatMap_cons]
    rfl

/-! ### Whole documents -/

/-- The pieces around those of the forest and the script. -/
def framePieces : List Piece :=
  [.element (utf8 "html") [], .element (utf8 "head") [],
    .element (utf8 "meta") [⟨utf8 "charset", utf8 "utf-8"⟩],
    .element (utf8 "style") [], .text styleSheet, .element (utf8 "body") []]

/-- **The pieces of a document** are those of its frame, of its nodes and of its script. -/
theorem pieces_document (states : StateTable) (ns : List Node) :
    (shell (body states ns)).pieces = framePieces ++
      ((Item.numbered 0 (Node.items ns)).flatMap fun y => Piece.ofItem states y.1 y.2) ++
      piecesAll (script states (elements states ns).2.wirings) := by
  rw [shell, pieces, body, elements]
  simp [piecesAll_ofNodes, framePieces]

/-- **The marked pieces of a document are those of its nodes.** -/
theorem filter_pieces_document {mark : Bytes} (hmark : sameFolded (utf8 "charset") mark = false)
    (states : StateTable) (ns : List Node) :
    (shell (body states ns)).pieces.filter (Piece.isMarked mark) =
      (Item.numbered 0 (Node.items ns)).flatMap fun y =>
        (Piece.ofItem states y.1 y.2).filter (Piece.isMarked mark) := by
  have hframe : framePieces.filter (Piece.isMarked mark) = [] := by
    simp [framePieces, Piece.isMarked, Attribute.marks, Piece.attributes, hmark]
  have hscript (ws : List Wiring) :
      (piecesAll (script states ws)).filter (Piece.isMarked mark) = [] := by
    rw [script]
    split <;> simp [Piece.isMarked, Attribute.marks, Piece.attributes]
  rw [pieces_document, List.filter_append, List.filter_append, hframe, hscript, List.nil_append,
    List.append_nil, List.filter_flatMap]

end Document

end LiveMarkup

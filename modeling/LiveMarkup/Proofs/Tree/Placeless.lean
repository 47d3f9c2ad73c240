import LiveMarkup.Document.Generate
import LiveMarkup.Proofs.Tree.Moved
import LiveMarkup.Tree.Outline

/-!
# Trees without their positions

Every node, handler and declaration of a tree carries the position where it was written, and a
handler that of its element. The output shows none of them: the document and the outline of a tree
are those of the tree without positions (`LiveMarkup.Document.generate_placeless`,
`LiveMarkup.Outline.dump_placeless`), and a line gives the same element wherever it stands, but for
its positions (`LiveMarkup.Reading.placeless_elementOf`).

So two sources have the same output as soon as their trees are equal without positions.
-/

namespace LiveMarkup

/-! ### Taking the positions off -/

/-- A handler without its position and that of its element. -/
def Handler.placeless (h : Handler) : Handler :=
  { h with element := ⟨0, 0⟩, position := ⟨0, 0⟩ }

/-- An element without its position and those of its handlers. -/
def Element.placeless (e : Element) : Element :=
  { e with position := ⟨0, 0⟩, handlers := e.handlers.map Handler.placeless }

/-- A text run without its position. -/
def TextRun.placeless (t : TextRun) : TextRun := { t with position := ⟨0, 0⟩ }

namespace Node

mutual

/-- A node without the positions of it and of what is below it. -/
def placeless : Node → Node
  | .element e cs => .element e.placeless (placelessAll cs)
  | .text t => .text t.placeless
  | .comment => .comment

/-- A forest without its positions. -/
def placelessAll : List Node → List Node
  | [] => []
  | n :: ns => placeless n :: placelessAll ns

end

@[simp] theorem placelessAll_nil : placelessAll [] = [] := rfl

@[simp] theorem placelessAll_cons (n : Node) (ns : List Node) :
    placelessAll (n :: ns) = placeless n :: placelessAll ns := rfl

@[simp] theorem placeless_element (e : Element) (cs : List Node) :
    placeless (.element e cs) = .element e.placeless (placelessAll cs) := rfl

theorem placelessAll_append (ns ms : List Node) :
    placelessAll (ns ++ ms) = placelessAll ns ++ placelessAll ms := by
  induction ns with
  | nil => rfl
  | cons n ns ih =>
    rw [List.cons_append, placelessAll_cons, ih, placelessAll_cons, List.cons_append]

end Node

namespace StateTable

/-- A table without the positions of its declarations. -/
def placeless (t : StateTable) : StateTable := t.moved fun _ => ⟨0, 0⟩

@[simp] theorem has_placeless (t : StateTable) (x : Bytes) : t.placeless.has x = t.has x :=
  has_moved (fun _ => ⟨0, 0⟩) t x

/-- What a declaration does to a table is independent of where it stands. -/
theorem placeless_declare (t : StateTable) (name initializer : Bytes) (position : Position) :
    (t.declare name initializer position).1.placeless =
      (t.placeless.declare name initializer ⟨0, 0⟩).1 :=
  moved_declare (fun _ => ⟨0, 0⟩) t name initializer position

end StateTable

/-! ### The output does not show positions -/

namespace Document

theorem content_placeless (states : StateTable) (text : Bytes) (binding : Option Bytes) :
    content states.placeless text binding = content states text binding := by
  cases binding with
  | none => rfl
  | some x => rw [content, content, StateTable.has_placeless]

theorem attributes_placeless (id : Nat) (e : Element) :
    attributes id e.placeless = attributes id e := by
  rw [attributes, attributes, Element.placeless, List.foldl_map]
  rfl

theorem addElement_placeless (b : Builder) (e : Element) :
    b.addElement e.placeless = b.addElement e := by
  have hlive : e.placeless.isLive = e.isLive := by
    rw [Element.isLive, Element.placeless, List.any_map, Element.isLive]
    rfl
  have hwirings (id : Nat) : Wiring.ofElement id e.placeless = Wiring.ofElement id e := by
    rw [Wiring.ofElement, Wiring.ofElement, Element.placeless, List.filter_map, List.map_map]
    rfl
  rw [Builder.addElement, Builder.addElement, hlive, hwirings]

theorem addBinding_placeless (states : StateTable) (b : Builder) (binding : Option Bytes) :
    b.addBinding states.placeless binding = b.addBinding states binding := by
  cases binding with
  | none => rfl
  | some x => rw [Builder.addBinding, Builder.addBinding, StateTable.has_placeless]

theorem ofNodes_placeless (states : StateTable) (b : Builder) (ns : List Node) :
    ofNodes states.placeless b (Node.placelessAll ns) = ofNodes states b ns := by
  induction ns using Node.forest_induction generalizing b with
  | nil => rfl
  | element e cs ns hcs hns =>
    have hnode : ofNode states.placeless b (Node.placeless (.element e cs)) =
        ofNode states b (.element e cs) := by
      rw [Node.placeless_element, ofNode, ofNode, addElement_placeless, addBinding_placeless, hcs,
        attributes_placeless, content_placeless]
      rfl
    rw [Node.placelessAll_cons, ofNodes, ofNodes, hnode, hns]
  | text t ns ih =>
    have hnode : ofNode states.placeless b (Node.placeless (.text t)) =
        ofNode states b (.text t) := by
      rw [Node.placeless, ofNode, ofNode, content_placeless, addBinding_placeless]
      rfl
    rw [Node.placelessAll_cons, ofNodes, ofNodes, hnode, ih]
  | comment ns ih =>
    rw [Node.placelessAll_cons, ofNodes, ofNodes, Node.placeless, ofNode, ofNode, ih]

theorem script_placeless (states : StateTable) (ws : List Wiring) :
    script states.placeless ws = script states ws := by
  have htext : Script.text? states.placeless.declarations ws =
      Script.text? states.declarations ws := by
    rw [Script.text?, Script.text?, Script.source, Script.source, StateTable.placeless,
      StateTable.moved, List.isEmpty_map, List.map_map, List.map_map]
    rfl
  rw [script, script, htext]

/-- **The document of a tree does not show where anything was written.** -/
theorem generate_placeless (states : StateTable) (ns : List Node) :
    generate states.placeless (Node.placelessAll ns) = generate states ns := by
  rw [generate, generate, body, body, elements, elements, ofNodes_placeless, script_placeless]

end Document

namespace Outline

theorem ofNodes_placeless (ns : List Node) : ofNodes (Node.placelessAll ns) = ofNodes ns := by
  induction ns using Node.forest_induction with
  | nil => rfl
  | element e cs ns hcs hns =>
    have hhandlers : e.placeless.handlers.map ofHandler = e.handlers.map ofHandler := by
      rw [Element.placeless, List.map_map]
      rfl
    rw [Node.placelessAll_cons, ofNodes, ofNodes, Node.placeless_element, ofNode, ofNode, hhandlers,
      hcs, hns]
    rfl
  | text t ns ih =>
    rw [Node.placelessAll_cons, ofNodes, ofNodes, ih]
    rfl
  | comment ns ih =>
    rw [Node.placelessAll_cons, ofNodes, ofNodes, ih]
    rfl

/-- **The outline of a tree does not show where anything was written.** -/
theorem dump_placeless (ns : List Node) : dump (Node.placelessAll ns) = dump ns := by
  rw [dump, ofNodes_placeless, dump]

end Outline

/-! ### Elements do not depend on where their lines stand -/

@[simp] theorem Element.placeless_addStyle (e : Element) (ps : List StyleProperty) :
    (e.addStyle ps).placeless = e.placeless.addStyle ps := rfl

/-- **A tag line gives the same element wherever it stands**, but for positions, and whether it
opens a block or not. -/
theorem Reading.placeless_elementOf (l m : Line) (t : TagLine) (block : Bool) :
    (elementOf l t).element.placeless = (elementOf m { t with block }).element.placeless :=
  moved_elementOf (f := fun _ => ⟨0, 0⟩) (g := fun _ => ⟨0, 0⟩) (l := l) (m := m) (t := t) rfl rfl

end LiveMarkup

import LiveMarkup.Document.Generate
import LiveMarkup.Proofs.Tree.Parents
import Mathlib.Data.List.Count

/-!
# What is collected for the script

While the elements of a document are written, a `LiveMarkup.Builder` goes along: it numbers the
elements with handlers, wires the handlers and counts the placeholders. It sees the nodes of the
source in order, each of them once (`LiveMarkup.Document.snd_ofNodes`), so what it has in the end is
known from what it does for one node:

* the next number counts the live elements (`LiveMarkup.Builder.next_addAll`);
* the wirings are those of the nodes, each with the number of its node
  (`LiveMarkup.Builder.wirings_addAll`);
* the placeholders of a name are the nodes that are bound to it, if it is declared
  (`LiveMarkup.Builder.placeholders_addAll`).

For a whole document these are `LiveMarkup.Wiring.ofNodes` and `LiveMarkup.Node.boundNames`, which
are read off the forest.
-/

namespace LiveMarkup

/-! ### Numbers -/

namespace Item

/-- Whether a node is an element for which the script has a handler. -/
def isLive (i : Item) : Bool := i.element?.any Element.isLive

/-- Each node with its number: live elements count, from `id` on, and the other nodes have the
number of the next live element. -/
def numbered (id : Nat) : List Item → List (Nat × Item)
  | [] => []
  | i :: is => (id, i) :: numbered (if i.isLive then id + 1 else id) is

theorem numbered_append (id : Nat) (is js : List Item) :
    numbered id (is ++ js) = numbered id is ++ numbered (id + is.countP isLive) js := by
  induction is generalizing id with
  | nil => rfl
  | cons i is ih =>
    rw [List.cons_append, numbered, ih, numbered, List.cons_append, List.countP_cons]
    congr 3
    split <;> omega

theorem map_snd_numbered (id : Nat) (is : List Item) : (numbered id is).map Prod.snd = is := by
  induction is generalizing id with
  | nil => rfl
  | cons i is ih => rw [numbered, List.map_cons, ih]

/-- The handlers of a node; only elements have any. -/
def handlers (i : Item) : List Handler := (i.element?.map Element.handlers).getD []

theorem filter_handlers_of_not_isLive {i : Item} (h : i.isLive = false) :
    i.handlers.filter Handler.isCompiled = [] := by
  rw [handlers]
  rw [isLive] at h
  cases he : i.element? with
  | none => rfl
  | some e =>
    rw [he, Option.any_some, Element.isLive, List.any_eq_false] at h
    exact List.filter_eq_nil_iff.mpr h

end Item

/-! ### One node -/

/-- The wirings of a node with a number. -/
def Wiring.ofItem (id : Nat) (i : Item) : List Wiring :=
  (i.handlers.filter Handler.isCompiled).map fun h => ⟨id, h.event, h.statement⟩

namespace Builder

/-- What is collected for a node. -/
def addItem (states : StateTable) (b : Builder) (i : Item) : Builder :=
  ((i.element?.map b.addElement).getD b).addBinding states i.binding?

variable (states : StateTable) (b : Builder) (i : Item)

theorem addBinding_cases (binding : Option Bytes) :
    (b.addBinding states binding).next = b.next ∧
      (b.addBinding states binding).wirings = b.wirings ∧
      ∀ x, (b.addBinding states binding).placeholders x =
        b.placeholders x + (binding.toList.filter states.has).count x := by
  cases binding with
  | none => exact ⟨rfl, rfl, fun x => rfl⟩
  | some y =>
    rw [addBinding]
    cases hy : states.has y with
    | false => exact ⟨rfl, rfl, fun x => by simp [hy]⟩
    | true =>
      refine ⟨rfl, rfl, fun x => ?_⟩
      rw [if_pos rfl, addPlaceholder, placeholders, Fields.get?_insert, Option.toList_some,
        List.filter_singleton, hy, cond_true, List.count_singleton]
      by_cases hxy : y = x
      · simp [hxy]
      · simp [hxy, placeholders]

theorem next_addItem :
    (b.addItem states i).next = if i.isLive then b.next + 1 else b.next := by
  rw [addItem, (addBinding_cases _ _ _).1, Item.isLive]
  cases i.element? with
  | none => rfl
  | some e => rfl

theorem wirings_addItem :
    (b.addItem states i).wirings = b.wirings ++ Wiring.ofItem b.next i := by
  rw [addItem, (addBinding_cases _ _ _).2.1, Wiring.ofItem, Item.handlers]
  cases i.element? with
  | none => exact (List.append_nil _).symm
  | some e => rfl

theorem placeholders_addItem (x : Bytes) :
    (b.addItem states i).placeholders x =
      b.placeholders x + (i.binding?.toList.filter states.has).count x := by
  rw [addItem, (addBinding_cases _ _ _).2.2]
  cases i.element? <;> rfl

/-! ### All nodes -/

/-- What is collected for some nodes, one after another. -/
def addAll (is : List Item) : Builder := is.foldl (addItem states) b

theorem next_addAll (is : List Item) :
    (b.addAll states is).next = b.next + is.countP Item.isLive := by
  induction is generalizing b with
  | nil => rfl
  | cons i is ih =>
    rw [addAll, List.foldl_cons, ← addAll, ih, next_addItem, List.countP_cons]
    split <;> omega

theorem wirings_addAll (is : List Item) :
    (b.addAll states is).wirings =
      b.wirings ++ (Item.numbered b.next is).flatMap fun y => Wiring.ofItem y.1 y.2 := by
  induction is generalizing b with
  | nil => exact (List.append_nil _).symm
  | cons i is ih =>
    rw [addAll, List.foldl_cons, ← addAll, ih, wirings_addItem, next_addItem, Item.numbered,
      List.flatMap_cons, List.append_assoc]

theorem placeholders_addAll (is : List Item) (x : Bytes) :
    (b.addAll states is).placeholders x =
      b.placeholders x + ((is.filterMap Item.binding?).filter states.has).count x := by
  induction is generalizing b with
  | nil => rfl
  | cons i is ih =>
    have hcons : (i :: is).filterMap Item.binding? =
        i.binding?.toList ++ is.filterMap Item.binding? := by
      rw [List.filterMap_cons]
      cases i.binding? <;> rfl
    rw [addAll, List.foldl_cons, ← addAll, ih, placeholders_addItem, hcons, List.filter_append,
      List.count_append, Nat.add_assoc]

end Builder

namespace Document

theorem snd_ofNode_element (states : StateTable) (b : Builder) (e : Element) (cs : List Node) :
    (ofNode states b (.element e cs)).2 =
      (ofNodes states (b.addItem states (.element e)) cs).2 := by
  rw [ofNode]
  cases e.isVoid <;> rfl

/-- **The nodes are collected in the order of the source**, each of them once. -/
theorem snd_ofNodes (states : StateTable) (b : Builder) (ns : List Node) :
    (ofNodes states b ns).2 = b.addAll states (Node.items ns) := by
  induction ns using Node.forest_induction generalizing b with
  | nil => rfl
  | element e cs ns ihcs ihns =>
    rw [ofNodes, snd_ofNode_element, ihcs, ihns, Node.items_element, Builder.addAll,
      Builder.addAll, Builder.addAll, List.foldl_cons, List.foldl_append]
  | text t ns ih =>
    rw [ofNodes, ofNode, ih, Node.items_text]
    rfl
  | comment ns ih =>
    rw [ofNodes, ofNode, ih, Node.items_comment]
    rfl

end Document

/-! ### Whole documents -/

/-- The wirings of a forest. The elements with handlers are numbered in the order of the source. -/
def Wiring.ofNodes (ns : List Node) : List Wiring :=
  ((Node.elements ns).filter Element.isLive).zipIdx.flatMap fun (e, i) => ofElement i e

/-- **The wirings are the compiled handlers of the nodes**, each with the number of its node. -/
theorem Wiring.ofNodes_eq_numbered (ns : List Node) :
    ofNodes ns = (Item.numbered 0 (Node.items ns)).flatMap fun y => ofItem y.1 y.2 := by
  rw [ofNodes, Node.elements_eq_items]
  -- The count starts anywhere, as in the document.
  generalize Node.items ns = is
  generalize hid : 0 = id
  clear hid
  induction is generalizing id with
  | nil => rfl
  | cons i is ih =>
    rw [Item.numbered, List.flatMap_cons, ← ih, List.filterMap_cons]
    cases hlive : i.isLive with
    | false =>
      rw [ofItem, Item.filter_handlers_of_not_isLive hlive]
      rw [Item.isLive] at hlive
      cases he : i.element? with
      | none => rfl
      | some e =>
        rw [he, Option.any_some] at hlive
        simp [hlive]
    | true =>
      rw [ofItem, Item.handlers]
      rw [Item.isLive] at hlive
      cases he : i.element? with
      | none => simp [he] at hlive
      | some e =>
        rw [he, Option.any_some] at hlive
        simp [hlive, List.zipIdx_cons, ofElement]

/-- The names of the placeholders of a forest, in order. -/
def Node.boundNames (states : StateTable) (ns : List Node) : List Bytes :=
  ((Node.bindings ns).map Prod.fst).filter states.has

theorem Node.boundNames_eq_items (states : StateTable) (ns : List Node) :
    boundNames states ns = ((Node.items ns).filterMap Item.binding?).filter states.has := by
  rw [boundNames, Node.bindings_eq_items, List.map_filterMap]
  congr 1
  refine List.filterMap_congr fun i _ => ?_
  cases i.binding? <;> rfl

namespace Document

/-- **The wirings of a document are those of its forest.** -/
theorem wirings_elements (states : StateTable) (ns : List Node) :
    (elements states ns).2.wirings = Wiring.ofNodes ns := by
  rw [elements, snd_ofNodes, Builder.wirings_addAll, Wiring.ofNodes_eq_numbered]
  rfl

/-- **The placeholders of a document are counted by name.** -/
theorem placeholders_elements (states : StateTable) (ns : List Node) (x : Bytes) :
    (elements states ns).2.placeholders x = (Node.boundNames states ns).count x := by
  rw [elements, snd_ofNodes, Builder.placeholders_addAll, Node.boundNames_eq_items]
  exact Nat.zero_add _

end Document

end LiveMarkup

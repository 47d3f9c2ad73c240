import LiveMarkup.Tree.Reading
import Mathlib.Data.List.Basic

/-!
# Nodes with their parents

A forest read parents before children, each node without what is below it and with the element
right above it. `LiveMarkup.Node.parentedAll` is that list; since the positions of the nodes of a
source are distinct, it determines the forest, and it is what the laws about nesting and about the
order of the source are stated on.

Two facts about it are used throughout. Forests are concatenated as their lists are
(`LiveMarkup.Node.parentedAll_append`), and an element that is changed at one position is changed in
two places: where it stands itself, and above each of its children
(`LiveMarkup.Node.map_changeEntry_parentedAll` is about the places where it does not stand).
-/

namespace LiveMarkup

/-! ### Nodes alone -/

/-- A node without what is below it. -/
inductive Item
  | element (element : Element)
  | text (run : TextRun)
  | comment
  deriving DecidableEq, Repr

namespace Item

/-- The element that a node is. -/
def element? : Item → Option Element
  | .element e => some e
  | _ => none

/-- The text of a node itself. -/
def literal : Item → Bytes
  | .element e => e.text
  | .text t => t.text
  | .comment => []

/-- The binding of a node. -/
def binding? : Item → Option Bytes
  | .element e => e.binding
  | .text t => t.binding
  | .comment => none

/-- The position of a node. -/
def position : Item → Position
  | .element e => e.position
  | .text t => t.position
  | .comment => ⟨0, 0⟩

end Item

namespace Node

/-- A node without what is below it. -/
def item : Node → Item
  | .element e _ => .element e
  | .text t => .text t
  | .comment => .comment

@[simp] theorem item_element (e : Element) (cs : List Node) : item (.element e cs) = .element e :=
  rfl

@[simp] theorem item_text (t : TextRun) : item (.text t) = .text t := rfl

@[simp] theorem item_comment : item .comment = .comment := rfl

@[simp] theorem position_item (n : Node) : n.item.position = n.position := by
  cases n <;> rfl

@[simp] theorem binding?_item (n : Node) : n.item.binding? = n.binding? := by
  cases n <;> rfl

/-! ### The list of a forest -/

mutual

/-- A node and all nodes below it, each with the element right above it, parents before children. -/
def parented (parent : Option Element) : Node → List (Option Element × Item)
  | .element e cs => (parent, .element e) :: parentedAll (some e) cs
  | .text t => [(parent, .text t)]
  | .comment => [(parent, .comment)]

/-- The nodes of a forest, each with the element right above it, parents before children. -/
def parentedAll (parent : Option Element) : List Node → List (Option Element × Item)
  | [] => []
  | n :: ns => parented parent n ++ parentedAll parent ns

end

/-- The nodes of a forest alone, parents before children. -/
def items (ns : List Node) : List Item := (parentedAll none ns).map Prod.snd

/-- **Induction on a forest**: an element in front of a forest is reached from the forest of its
children and from the forest after it. -/
@[elab_as_elim]
theorem forest_induction {motive : List Node → Prop} (nil : motive [])
    (element : ∀ e cs ns, motive cs → motive ns → motive (.element e cs :: ns))
    (text : ∀ t ns, motive ns → motive (.text t :: ns))
    (comment : ∀ ns, motive ns → motive (.comment :: ns)) (ns : List Node) : motive ns :=
  match ns with
  | [] => nil
  | .element e cs :: ns =>
    element e cs ns (forest_induction nil element text comment cs)
      (forest_induction nil element text comment ns)
  | .text t :: ns => text t ns (forest_induction nil element text comment ns)
  | .comment :: ns => comment ns (forest_induction nil element text comment ns)

@[simp] theorem parentedAll_nil (p : Option Element) : parentedAll p [] = [] := rfl

@[simp] theorem parentedAll_element (p : Option Element) (e : Element) (cs ns : List Node) :
    parentedAll p (.element e cs :: ns) =
      (p, .element e) :: (parentedAll (some e) cs ++ parentedAll p ns) := rfl

@[simp] theorem parentedAll_text (p : Option Element) (t : TextRun) (ns : List Node) :
    parentedAll p (.text t :: ns) = (p, .text t) :: parentedAll p ns := rfl

@[simp] theorem parentedAll_comment (p : Option Element) (ns : List Node) :
    parentedAll p (.comment :: ns) = (p, .comment) :: parentedAll p ns := rfl

theorem parentedAll_singleton (p : Option Element) (n : Node) :
    parentedAll p [n] = parented p n := by
  simp [parentedAll]

theorem parentedAll_append (p : Option Element) (ns ms : List Node) :
    parentedAll p (ns ++ ms) = parentedAll p ns ++ parentedAll p ms := by
  induction ns with
  | nil => rfl
  | cons n ns ih => simp [parentedAll, ih]

/-- Which nodes a list has does not depend on what is above it. -/
theorem map_snd_parentedAll (p q : Option Element) (ns : List Node) :
    (parentedAll p ns).map Prod.snd = (parentedAll q ns).map Prod.snd := by
  induction ns using forest_induction generalizing p q with
  | nil => rfl
  | element e cs ns _ ih => simp [ih p q]
  | text t ns ih => simp [ih p q]
  | comment ns ih => simp [ih p q]

@[simp] theorem items_nil : items [] = [] := rfl

@[simp] theorem items_element (e : Element) (cs ns : List Node) :
    items (.element e cs :: ns) = .element e :: (items cs ++ items ns) := by
  simp [items, map_snd_parentedAll (some e) none]

@[simp] theorem items_text (t : TextRun) (ns : List Node) :
    items (.text t :: ns) = .text t :: items ns := rfl

@[simp] theorem items_comment (ns : List Node) : items (.comment :: ns) = .comment :: items ns :=
  rfl

/-! ### The list and the listing by depth -/

@[simp] theorem preorderAll_nil (d : Nat) : preorderAll d [] = [] := rfl

@[simp] theorem preorderAll_element (d : Nat) (e : Element) (cs ns : List Node) :
    preorderAll d (.element e cs :: ns) =
      (d, .element e cs) :: (preorderAll (d + 1) cs ++ preorderAll d ns) := rfl

@[simp] theorem preorderAll_text (d : Nat) (t : TextRun) (ns : List Node) :
    preorderAll d (.text t :: ns) = (d, .text t) :: preorderAll d ns := rfl

@[simp] theorem preorderAll_comment (d : Nat) (ns : List Node) :
    preorderAll d (.comment :: ns) = (d, .comment) :: preorderAll d ns := rfl

/-- **The listing by depth has the same nodes**, in the same order. -/
theorem map_item_preorderAll (d : Nat) (ns : List Node) :
    (preorderAll d ns).map (fun x => x.2.item) = items ns := by
  suffices h : ∀ p, (preorderAll d ns).map (fun x => x.2.item) = (parentedAll p ns).map Prod.snd
    from h none
  induction ns using forest_induction generalizing d with
  | nil => intro p; rfl
  | element e cs ns ihc ih => intro p; simp [ihc (d + 1) (some e), ih d p]
  | text t ns ih => intro p; simp [ih d p]
  | comment ns ih => intro p; simp [ih d p]

theorem elements_eq_items (ns : List Node) : elements ns = (items ns).filterMap Item.element? := by
  rw [elements, ← map_item_preorderAll 0, List.filterMap_map]
  congr 1
  funext x
  obtain ⟨d, n⟩ := x
  cases n <;> rfl

theorem mem_elements_iff {ns : List Node} {e : Element} :
    e ∈ elements ns ↔ Item.element e ∈ items ns := by
  rw [elements_eq_items, List.mem_filterMap]
  constructor
  · rintro ⟨i, hi, he⟩
    cases i with
    | element e' =>
      obtain rfl := Option.some.inj he
      exact hi
    | text t => exact absurd he (by simp [Item.element?])
    | comment => exact absurd he (by simp [Item.element?])
  · intro h
    exact ⟨.element e, h, rfl⟩

@[simp] theorem elements_nil : elements [] = [] := rfl

@[simp] theorem elements_element (e : Element) (cs ns : List Node) :
    elements (.element e cs :: ns) = e :: (elements cs ++ elements ns) := by
  simp [elements_eq_items, Item.element?]

@[simp] theorem elements_text (t : TextRun) (ns : List Node) :
    elements (.text t :: ns) = elements ns := by
  rw [elements_eq_items, elements_eq_items, items_text]
  rfl

@[simp] theorem elements_comment (ns : List Node) : elements (.comment :: ns) = elements ns := by
  rw [elements_eq_items, elements_eq_items, items_comment]
  rfl

theorem bindings_eq_items (ns : List Node) :
    bindings ns = (items ns).filterMap fun i => i.binding?.map fun x => (x, i.position) := by
  rw [bindings, ← map_item_preorderAll 0, List.filterMap_map]
  simp only [Function.comp_def, binding?_item, position_item]

/-! ### One element changed -/

end Node

namespace Element

@[simp] theorem position_addStyle (e : Element) (ps : List StyleProperty) :
    (e.addStyle ps).position = e.position := rfl

@[simp] theorem addStyle_nil (e : Element) : e.addStyle [] = e := rfl

theorem addStyle_append (e : Element) (ps qs : List StyleProperty) :
    e.addStyle (ps ++ qs) = (e.addStyle ps).addStyle qs := by
  simp [addStyle, Style.setAll, List.foldl_append]

/-- The change `f`, carried out on the elements at a position only. -/
def changeAt (p : Position) (f : Element → Element) (e : Element) : Element :=
  if e.position = p then f e else e

theorem changeAt_of_ne {p : Position} (f : Element → Element) {e : Element} (h : e.position ≠ p) :
    e.changeAt p f = e := if_neg h

theorem changeAt_self (f : Element → Element) (e : Element) :
    e.changeAt e.position f = f e := if_pos rfl

end Element

namespace Item

/-- A node with its element changed. -/
def mapElement (f : Element → Element) : Item → Item
  | .element e => .element (f e)
  | .text t => .text t
  | .comment => .comment

end Item

namespace Node

/-- A change of elements, carried out on a node and on the element above it. -/
def changeEntry (f : Element → Element) (x : Option Element × Item) : Option Element × Item :=
  (x.1.map f, x.2.mapElement f)

/-- **A forest without the changed position** stays as it is, but for what is above it. -/
theorem map_changeEntry_parentedAll (p : Position) (f : Element → Element) (q : Option Element)
    (ns : List Node) (h : ∀ x ∈ items ns, x.position ≠ p) :
    (parentedAll q ns).map (changeEntry (Element.changeAt p f)) =
      parentedAll (q.map (Element.changeAt p f)) ns := by
  induction ns using forest_induction generalizing q with
  | nil => rfl
  | element e cs ns ihc ih =>
    simp only [items_element, List.mem_cons, List.mem_append, forall_eq_or_imp] at h
    obtain ⟨he, h⟩ := h
    have hcs : ∀ x ∈ items cs, x.position ≠ p := fun x hx => h x (Or.inl hx)
    have hns : ∀ x ∈ items ns, x.position ≠ p := fun x hx => h x (Or.inr hx)
    have hkeep : e.changeAt p f = e := Element.changeAt_of_ne f he
    simp [changeEntry, Item.mapElement, hkeep, ihc _ hcs, ih _ hns]
  | text t ns ih =>
    simp only [items_text, List.mem_cons, forall_eq_or_imp] at h
    simp [changeEntry, Item.mapElement, ih _ h.2]
  | comment ns ih =>
    simp only [items_comment, List.mem_cons, forall_eq_or_imp] at h
    simp [changeEntry, Item.mapElement, ih _ h.2]

end Node

end LiveMarkup

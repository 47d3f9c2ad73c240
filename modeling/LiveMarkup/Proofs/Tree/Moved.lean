import LiveMarkup.Proofs.State
import LiveMarkup.Proofs.Tree.Attributes
import LiveMarkup.Proofs.Tree.Parents

/-!
# Trees at other positions

Every node, handler and declaration carries the position where it was written, and nothing else in a
tree depends on positions. `LiveMarkup.Element.moved`, `LiveMarkup.Node.movedAll` and
`LiveMarkup.StateTable.moved` change all positions of a tree by one function: the same lines further
down are read as the same tree, with its positions moved, and positions can be forgotten altogether.

What an attribute list does to an element commutes with moving it
(`LiveMarkup.Attributed.moved_addList`), so the element of a tag line at another place is the
element moved (`LiveMarkup.Reading.moved_elementOf`).
-/

namespace LiveMarkup

section Moved

variable (f : Position → Position)

/-- A handler at another position. -/
def Handler.moved (h : Handler) : Handler :=
  { h with element := f h.element, position := f h.position }

/-- An element and its handlers at other positions. -/
def Element.moved (e : Element) : Element :=
  { e with position := f e.position, handlers := e.handlers.map (Handler.moved f) }

/-- A text run at another position. -/
def TextRun.moved (t : TextRun) : TextRun := { t with position := f t.position }

namespace Node

mutual

/-- A node and what is below it at other positions. -/
def moved : Node → Node
  | .element e cs => .element (e.moved f) (movedAll cs)
  | .text t => .text (t.moved f)
  | .comment => .comment

/-- A forest at other positions. -/
def movedAll : List Node → List Node
  | [] => []
  | n :: ns => moved n :: movedAll ns

end

theorem movedAll_eq_map (ns : List Node) : movedAll f ns = ns.map (moved f) := by
  induction ns with
  | nil => rfl
  | cons n ns ih => rw [movedAll, ih, List.map_cons]

theorem movedAll_append (ns ms : List Node) :
    movedAll f (ns ++ ms) = movedAll f ns ++ movedAll f ms := by
  rw [movedAll_eq_map, List.map_append, ← movedAll_eq_map, ← movedAll_eq_map]

end Node

/-! ### Declarations -/

/-- A declaration at another position. -/
def StateDeclaration.moved (d : StateDeclaration) : StateDeclaration :=
  { d with position := f d.position }

theorem StateDeclaration.map_name_moved (ds : List StateDeclaration) :
    (ds.map (StateDeclaration.moved f)).map StateDeclaration.name =
      ds.map StateDeclaration.name := by
  rw [List.map_map]
  rfl

theorem StateDeclaration.moved_revised (name initializer : Bytes) (d : StateDeclaration) :
    (d.revised name initializer).moved f = (d.moved f).revised name initializer := by
  rw [revised, revised, show (d.moved f).name = d.name from rfl]
  split <;> rfl

namespace StateTable

/-- A table with its declarations at other positions. -/
def moved (t : StateTable) : StateTable where
  declarations := t.declarations.map (StateDeclaration.moved f)
  index := t.index
  distinct := (StateDeclaration.map_name_moved f t.declarations).symm ▸ t.distinct
  indexed := (StateDeclaration.map_name_moved f t.declarations).symm ▸ t.indexed

@[simp] theorem has_moved (t : StateTable) (x : Bytes) : (t.moved f).has x = t.has x := by
  rw [← isSome_index, ← isSome_index]
  rfl

/-- What a declaration does to a table is independent of where it stands. -/
theorem moved_declare (t : StateTable) (name initializer : Bytes) (position : Position) :
    (t.declare name initializer position).1.moved f =
      ((t.moved f).declare name initializer (f position)).1 := by
  refine ext_declarations ?_
  rw [declarations_declare, has_moved, moved, moved]
  dsimp only
  rw [declarations_declare]
  split
  · rw [List.map_map, List.map_map]
    exact List.map_congr_left fun d _ => StateDeclaration.moved_revised f name initializer d
  · rw [List.map_append]
    rfl

end StateTable

/-! ### Elements -/

namespace Element

@[simp] theorem moved_addStyle (e : Element) (ps : List StyleProperty) :
    (e.addStyle ps).moved f = (e.moved f).addStyle ps := rfl

theorem moved_addClass (e : Element) (c : Bytes) :
    (e.addClass c).moved f = (e.moved f).addClass c := by
  rw [addClass, addClass, show (e.moved f).classes = e.classes from rfl]
  split <;> rfl

theorem moved_foldl_addClass (cs : List Bytes) (e : Element) :
    (cs.foldl addClass e).moved f = cs.foldl addClass (e.moved f) := by
  induction cs generalizing e with
  | nil => rfl
  | cons c cs ih => rw [List.foldl_cons, ih, moved_addClass, List.foldl_cons]

theorem moved_addHandler (e : Element) (h : Handler) :
    (e.addHandler h).moved f = (e.moved f).addHandler (h.moved f) := by
  rw [addHandler, addHandler, moved, moved, List.map_append, List.map_singleton]

end Element

namespace Attributed

/-- An element at another position, with its problems. -/
def moved (a : Attributed) : Attributed := { a with element := a.element.moved f }

theorem moved_addEvent (position : Position) (a : Attributed) (value : Bytes) :
    (a.addEvent position value).moved f = (a.moved f).addEvent (f position) value := by
  rw [addEvent, addEvent]
  cases EventValue.parse? value with
  | none => rfl
  | some v =>
    have hadd (h : Handler) : moved f { a with element := a.element.addHandler h } =
        { a.moved f with element := (a.moved f).element.addHandler (h.moved f) } := by
      rw [moved, Element.moved_addHandler]
      rfl
    dsimp only
    generalize hh : (⟨a.element.position, v.event, Statement.ofBody v.body, position⟩ : Handler) = h
    rw [show (⟨(a.moved f).element.position, v.event, Statement.ofBody v.body, f position⟩ :
      Handler) = h.moved f by rw [← hh]; rfl]
    by_cases hc : h.isCompiled
    · rw [if_pos hc, if_pos (show (h.moved f).isCompiled from hc)]
      exact hadd h
    · rw [if_neg hc, if_neg (show ¬(h.moved f).isCompiled from hc)]
      exact congrArg (report · _) (hadd h)

theorem moved_apply (position : Position) (a : Attributed) (key value : Bytes) :
    (a.apply position key value).moved f = (a.moved f).apply (f position) key value := by
  rw [apply, apply]
  split
  · exact moved_addEvent f position a value
  split
  · rw [moved, Element.moved_foldl_addClass]
    rfl
  split <;> rfl

/-- **An entry does the same to an element** wherever it stands. -/
theorem moved_addEntry (position : Position) (a : Attributed) (written : Bytes) :
    (a.addEntry position written).moved f = (a.moved f).addEntry (f position) written := by
  rw [addEntry, addEntry]
  split
  · rfl
  split
  · rfl
  split
  · rfl
  dsimp only
  split
  · rfl
  split
  · rfl
  split
  · rfl
  exact moved_apply f position a _ _

theorem moved_addList (position : Position) (e : Element) (list : Bytes) :
    (addList position e list).moved f = addList (f position) (e.moved f) list := by
  rw [addList, addList]
  generalize Nesting.split (octet ',') list = entries
  have hfold (a : Attributed) : (entries.foldl (addEntry position) a).moved f =
      entries.foldl (addEntry (f position)) (a.moved f) := by
    induction entries generalizing a with
    | nil => rfl
    | cons written entries ih => rw [List.foldl_cons, ih, moved_addEntry, List.foldl_cons]
  exact hfold { element := e }

end Attributed

end Moved

namespace Reading

/-- **A tag line gives the same element wherever it stands**, but for positions: those of the two
lines may be moved to the same place. -/
theorem moved_elementOf {f g : Position → Position} {l m : Line} {t : TagLine}
    (hline : f l.position = g m.position)
    (hlist : f (l.position.advance t.headLength) = g (m.position.advance t.headLength)) :
    (elementOf l t).element.moved f = (elementOf m t).element.moved g := by
  have hbare : ({ tag := t.tag, position := l.position } : Element).moved f =
      ({ tag := t.tag, position := m.position } : Element).moved g := by
    rw [Element.moved, Element.moved, hline]
    rfl
  have hhead : (headOf l t).moved f = (headOf m t).moved g := by
    rw [headOf, headOf]
    cases t.identifier? with
    | none =>
      dsimp only
      rw [Element.moved_foldl_addClass, Element.moved_foldl_addClass, hbare]
    | some x =>
      have hset (k : Position → Position) (e : Element) :
          (e.setAttribute (utf8 "id") x).moved k =
            (e.moved k).setAttribute (utf8 "id") x := rfl
      dsimp only
      rw [hset, hset, Element.moved_foldl_addClass, Element.moved_foldl_addClass, hbare]
  rw [elementOf_eq, elementOf_eq]
  cases t.attributes with
  | none =>
    exact congrArg (fun e => { e with text := t.text.getD [], binding := t.binding }) hhead
  | some list =>
    have hmoved (k : Position → Position) (n : Line) := congrArg Attributed.element
      (Attributed.moved_addList k (n.position.advance t.headLength) (headOf n t) list.text)
    have heq : (Attributed.addList (l.position.advance t.headLength) (headOf l t)
          list.text).element.moved f =
        (Attributed.addList (m.position.advance t.headLength) (headOf m t)
          list.text).element.moved g := by
      refine (hmoved f l).trans (Eq.trans ?_ (hmoved g m).symm)
      rw [hhead, hlist]
    exact congrArg (fun e => { e with text := t.text.getD [], binding := t.binding }) heq

end Reading

end LiveMarkup

import LiveMarkup.Proofs.Tree.Parents

/-!
# Open elements and the forest they belong to

The frames of `LiveMarkup.Scopes` are the rightmost branch of a forest that is still growing.
`LiveMarkup.Scopes.forest` is the forest that is left when everything is closed, and
`LiveMarkup.Scopes.entries` its list of nodes with their parents. The frames themselves are seen
through `LiveMarkup.Scopes.heads`, the indents and elements without the children.

Each operation does one thing to these views:

| operation | to the list of nodes | to the frames |
|---|---|---|
| `close` | nothing | drops the inner ones that do not reach |
| `attach` | appends below the innermost element | nothing |
| `push` | appends below the innermost element | adds one |
| `modifyTop` | changes one element | changes the innermost |

That `attach` and `push` only ever append is what keeps the nodes in the order of the source.
-/

namespace LiveMarkup

namespace Scopes

/-- The forest when everything is closed. -/
def forest (s : Scopes) : List Node := (s.close 0).nodes

/-- The nodes of the forest with their parents. -/
def entries (s : Scopes) : List (Option Element × Item) := Node.parentedAll none s.forest

/-- The indents and the elements of the frames, innermost first. -/
def heads (s : Scopes) : List (Nat × Element) := s.frames.map fun f => (f.indent, f.element)

theorem top?_eq_heads (s : Scopes) : s.top? = s.heads.head?.map Prod.snd := by
  cases s with
  | mk nodes frames => cases frames <;> rfl

/-! ### Closing -/

theorem close_nil (indent : Nat) (nodes : List Node) : close indent ⟨nodes, []⟩ = ⟨nodes, []⟩ := by
  rw [close]

theorem close_cons (indent : Nat) (nodes : List Node) (f : Frame) (fs : List Frame) :
    close indent ⟨nodes, f :: fs⟩ =
      if indent ≤ f.indent then close indent (attach f.node ⟨nodes, fs⟩) else ⟨nodes, f :: fs⟩ := by
  rw [close]

/-- The forest of frames is that of the outer frames with the innermost one attached. -/
theorem forest_cons (nodes : List Node) (f : Frame) (fs : List Frame) :
    forest ⟨nodes, f :: fs⟩ = forest (attach f.node ⟨nodes, fs⟩) := by
  rw [forest, close_cons, if_pos (Nat.zero_le _), forest]

/-- **Closing does not change the forest.** -/
theorem forest_close (indent : Nat) (s : Scopes) : (s.close indent).forest = s.forest := by
  fun_induction close indent s with
  | case1 nodes => rfl
  | case2 nodes f fs _ ih => rw [ih, forest_cons]
  | case3 nodes f fs _ => rfl

theorem entries_close (indent : Nat) (s : Scopes) : (s.close indent).entries = s.entries := by
  rw [entries, forest_close, entries]

@[simp] theorem heads_attach (n : Node) (s : Scopes) : (s.attach n).heads = s.heads := by
  cases s with
  | mk nodes frames => cases frames <;> rfl

/-- **Closing drops the inner frames that do not reach beyond the indent.** -/
theorem heads_close (indent : Nat) (s : Scopes) :
    (s.close indent).heads = s.heads.dropWhile fun h => indent ≤ h.1 := by
  fun_induction close indent s with
  | case1 nodes => rfl
  | case2 nodes f fs h ih =>
    rw [ih, heads_attach]
    simp [heads, h]
  | case3 nodes f fs h => simp [heads, h]

/-- What is closed at a deeper indent is closed again by closing at a lower one. -/
theorem close_close {i j : Nat} (h : i ≤ j) (s : Scopes) : (s.close j).close i = s.close i := by
  fun_induction close j s with
  | case1 nodes => rfl
  | case2 nodes f fs hf ih => rw [ih, close_cons, if_pos (Nat.le_trans h hf)]
  | case3 nodes f fs _ => rfl

/-- An element that was just opened stays open for what is indented deeper. -/
theorem close_push {i j : Nat} (h : i < j) (e : Element) (s : Scopes) :
    (s.push i e).close j = s.push i e := by
  obtain ⟨nodes, frames⟩ := s
  rw [push, close_cons, if_neg (Nat.not_le.mpr h)]

/-- Attaching a node opens nothing. -/
theorem close_attach_close (i : Nat) (n : Node) (s : Scopes) :
    ((s.close i).attach n).close i = (s.close i).attach n := by
  fun_induction close i s with
  | case1 nodes => rw [attach, close_nil]
  | case2 nodes f fs _ ih => exact ih
  | case3 nodes f fs hf => rw [attach, close_cons, if_neg hf]

/-! ### Adding a node -/

theorem entries_nil (nodes : List Node) : entries ⟨nodes, []⟩ = Node.parentedAll none nodes := by
  rw [entries, forest, close_nil]

/-- **A node is attached at the end of the list**, below the innermost open element. The induction
is on the frames: attaching to the innermost one extends the last of the nodes that are attached to
the outer ones. -/
theorem entries_attach (n : Node) (s : Scopes) :
    (s.attach n).entries = s.entries ++ Node.parented s.top? n := by
  obtain ⟨nodes, frames⟩ := s
  induction frames generalizing n with
  | nil =>
    rw [attach, entries_nil, entries_nil, Node.parentedAll_append, Node.parentedAll_singleton]
    rfl
  | cons f fs ih =>
    have hcons (g : Frame) : entries ⟨nodes, g :: fs⟩ =
        entries ⟨nodes, fs⟩ ++ Node.parented (top? ⟨nodes, fs⟩) g.node := by
      rw [entries, forest_cons, ← entries, ih]
    rw [attach, hcons, hcons]
    simp [Frame.node, Node.parented, Node.parentedAll_append, Node.parentedAll_singleton, top?]

/-- The innermost element and what is below it end the list. -/
theorem entries_cons (nodes : List Node) (f : Frame) (fs : List Frame) :
    entries ⟨nodes, f :: fs⟩ = entries ⟨nodes, fs⟩ ++
      (top? ⟨nodes, fs⟩, .element f.element) :: Node.parentedAll (some f.element) f.children := by
  rw [entries, forest_cons, ← entries, entries_attach, Frame.node, Node.parented]

theorem entries_push (indent : Nat) (e : Element) (s : Scopes) :
    (s.push indent e).entries = s.entries ++ [(s.top?, .element e)] := by
  obtain ⟨nodes, frames⟩ := s
  rw [push, entries_cons, Node.parentedAll_nil]

@[simp] theorem heads_push (indent : Nat) (e : Element) (s : Scopes) :
    (s.push indent e).heads = (indent, e) :: s.heads := rfl

/-! ### Changing the innermost element -/

/-- The innermost open element is in the list. -/
theorem mem_entries_of_top? {s : Scopes} {e : Element} (h : s.top? = some e) :
    ∃ q, (q, Item.element e) ∈ s.entries := by
  obtain ⟨nodes, frames⟩ := s
  cases frames with
  | nil => exact absurd h (by simp [top?])
  | cons f fs =>
    have hf : f.element = e := by simpa [top?] using h
    refine ⟨top? ⟨nodes, fs⟩, ?_⟩
    rw [entries_cons, hf]
    simp

theorem modifyTop_of_top?_eq_none (f : Element → Element) {s : Scopes} (h : s.top? = none) :
    s.modifyTop f = s := by
  obtain ⟨nodes, frames⟩ := s
  cases frames with
  | nil => rfl
  | cons g gs => exact absurd h (by simp [top?])

theorem heads_modifyTop (f : Element → Element) (s : Scopes) :
    (s.modifyTop f).heads = s.heads.modifyHead fun h => (h.1, f h.2) := by
  cases s with
  | mk nodes frames => cases frames <;> rfl

/-- **Changing the innermost element changes its entry and those of its children**, and no others,
because no other node has its position. -/
theorem entries_modifyTop (f : Element → Element) {s : Scopes} {e : Element}
    (htop : s.top? = some e) (hnodup : (s.entries.map fun x => x.2.position).Nodup) :
    (s.modifyTop f).entries = s.entries.map (Node.changeEntry (Element.changeAt e.position f)) := by
  obtain ⟨nodes, frames⟩ := s
  cases frames with
  | nil => exact absurd htop (by simp [top?])
  | cons g gs =>
    obtain rfl : g.element = e := by simpa [top?] using htop
    rw [entries_cons] at hnodup
    simp only [List.map_append, List.map_cons, List.nodup_append, List.nodup_cons, List.mem_map,
      List.mem_cons] at hnodup
    obtain ⟨-, ⟨hbelow, -⟩, hbefore⟩ := hnodup
    -- The position is found neither in front of the element nor below it, nor on an element above.
    have houter : ∀ x ∈ Node.items (forest ⟨nodes, gs⟩), x.position ≠ g.element.position := by
      intro x hx
      obtain ⟨y, hy, rfl⟩ := List.mem_map.mp hx
      exact hbefore _ ⟨y, hy, rfl⟩ _ (Or.inl rfl)
    have hinner : ∀ x ∈ Node.items g.children, x.position ≠ g.element.position := by
      intro x hx hpos
      rw [Node.items, Node.map_snd_parentedAll none (some g.element)] at hx
      obtain ⟨y, hy, rfl⟩ := List.mem_map.mp hx
      exact hbelow ⟨y, hy, hpos⟩
    have htops : (top? ⟨nodes, gs⟩).map (Element.changeAt g.element.position f) =
        top? ⟨nodes, gs⟩ := by
      cases ht : top? ⟨nodes, gs⟩ with
      | none => rfl
      | some e' =>
        obtain ⟨q, hq⟩ := mem_entries_of_top? ht
        have hne : e'.position ≠ g.element.position := hbefore _ ⟨_, hq, rfl⟩ _ (Or.inl rfl)
        rw [Option.map_some, Element.changeAt_of_ne f hne]
    rw [modifyTop, entries_cons, entries_cons, List.map_append, List.map_cons, entries,
      Node.map_changeEntry_parentedAll _ _ _ _ houter,
      Node.map_changeEntry_parentedAll _ _ _ _ hinner]
    simp [Node.changeEntry, Item.mapElement, htops, Element.changeAt_self]

end Scopes

end LiveMarkup

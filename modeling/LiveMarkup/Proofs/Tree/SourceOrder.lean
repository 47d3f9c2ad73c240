import LiveMarkup.Proofs.Tree.Nesting

/-!
# Every line is accounted for

The nodes of a tree in pre-order are the tag lines and the text lines of its source, one for one and
in order: no line is lost, none is used twice, and no node comes from elsewhere. Since the pre-order
of the nodes is known from the layout (`LiveMarkup.Layout.items_nodes`), what is left is that a node
carries what its line says (`LiveMarkup.Layout.map_bare_item?`), and what becomes of the other
lines: each of them is a closing mark, a style directive, a declaration that is kept, or is reported
as an error at its own position.

Only lines outside style blocks are counted here; those inside are declarations, and
`LiveMarkup.Proofs.Tree.Nesting` says which element receives them.
-/

namespace LiveMarkup

/-! ### What a line carries -/

/-- An element with nothing but what its tag line says outside of classes and attributes. -/
def Element.bare (e : Element) : Element :=
  { tag := e.tag, text := e.text, binding := e.binding, position := e.position }

/-- The node that the text of a tag line or of a text line says, at the position of the line. -/
def Row.bare? (x : Row) : Option Item :=
  (x.tag?.map fun t => Item.element
      { tag := t.tag, text := t.text.getD [], binding := t.binding,
        position := x.line.position }).or
    (x.text?.map fun t => Item.text ⟨t.text, t.binding, x.line.position⟩)

namespace LineKind

/-- **A text is accepted as being of a kind**: the scan for lines of that kind succeeds on it, with
that result. -/
def Accepts (s : Bytes) : LineKind → Prop
  | .closing => isClosing s
  | .state d => StateLine.parse? s = some d
  | .misnamed name => ∃ d, StateLine.parse? s = some d ∧ d.name = name
  | .style d => Style.Directive.parse? s = some d
  | .text t => TextLine.parse? s = some t
  | .tag t => TagLine.parse? s = some t
  | .unrecognized => True

theorem accepts_ofState (s : Bytes) : (ofState s).Accepts s := by
  rw [ofState]
  cases hs : StateLine.parse? s with
  | none => trivial
  | some d =>
    dsimp only
    split
    · exact hs
    · exact ⟨d, hs, rfl⟩

/-- **Every text is accepted as what it is taken for.** The cases are those of the dispatch. -/
theorem accepts_ofText (s : Bytes) : (ofText s).Accepts s := by
  rw [ofText]
  split
  · assumption
  · split
    · exact accepts_ofState s
    · split
      · assumption
      · split
        · split
          · assumption
          · trivial
        · split
          · assumption
          · trivial

end LineKind

namespace Layout

/-- **A node carries what its line says.** -/
theorem map_bare_item? (rows : List Row) (x : Row) :
    (item? rows x).map (Item.mapElement Element.bare) = x.bare? := by
  rw [item?, element?, run?, Row.bare?]
  cases x.tag? with
  | some t =>
    simp [Item.mapElement, Element.bare, Element.addStyle]
  | none => cases x.text? <;> rfl

/-! ### What becomes of the other lines -/

/-- A row that is reported on its own account, whatever has been read before it. -/
theorem mem_diagnostics_of_notices {src : Bytes} {x : Row} (hx : x ∈ ofSource src) {p : Problem}
    (hp : p.isReference = false) (h : ∀ r : Reading, ⟨x.line.position, p⟩ ∈ r.notices x) :
    ⟨x.line.position, p⟩ ∈ (SourceTree.ofSource src).diagnostics := by
  obtain ⟨before, after, hsplit⟩ := List.append_of_mem hx
  exact (SourceTree.mem_diagnostics_ofSource hp).mpr ⟨before, x, after, hsplit, h _⟩

/-- **A line outside style blocks makes a node, or is a closing mark, a directive or a declaration
that is kept, or is reported as an error.** -/
theorem row_cases {src : Bytes} {x : Row} (hx : x ∈ ofSource src) (hout : x.inStyle = false) :
    x.bare?.isSome ∨ LineKind.isClosing x.line.text ∨
    (Style.Directive.parse? x.line.text).isSome ∨
    (∃ d, StateLine.parse? x.line.text = some d ∧
      d.name ∈ (SourceTree.ofSource src).states.names) ∨
    ∃ d ∈ (SourceTree.ofSource src).diagnostics, d.position = x.line.position ∧
      d.severity = .error ∧ (d.problem = .unrecognizedLine x.line.text ∨
        ∃ s, StateLine.parse? x.line.text = some s ∧ d.problem = .stateName s.name) := by
  have haccepts := LineKind.accepts_ofText x.line.text
  have hkind : x.kind? = some (LineKind.ofText x.line.text) := by simp [Row.kind?, hout]
  cases hk : LineKind.ofText x.line.text with
  | tag t =>
    rw [hk] at hkind
    exact Or.inl (by simp [Row.bare?, Row.tag?, hkind, LineKind.tag?])
  | text t =>
    rw [hk] at hkind
    exact Or.inl (by simp [Row.bare?, Row.tag?, Row.text?, hkind, LineKind.tag?, LineKind.text?])
  | closing =>
    rw [hk] at haccepts
    exact Or.inr (Or.inl haccepts)
  | style d =>
    rw [hk, LineKind.Accepts] at haccepts
    exact Or.inr (Or.inr (Or.inl (by simp [haccepts])))
  | state d =>
    rw [hk] at haccepts hkind
    refine Or.inr (Or.inr (Or.inr (Or.inl ⟨d, haccepts, ?_⟩)))
    rw [← StateTable.has_iff_mem_names, SourceTree.has_states_iff]
    exact ⟨x, hx, d, Row.state?_of_kind? hkind, rfl⟩
  | misnamed name =>
    rw [hk] at haccepts hkind
    obtain ⟨s, hs, rfl⟩ := haccepts
    refine Or.inr (Or.inr (Or.inr (Or.inr
      ⟨⟨x.line.position, .stateName s.name⟩, ?_, rfl, rfl, Or.inr ⟨s, hs, rfl⟩⟩)))
    exact mem_diagnostics_of_notices hx rfl fun r => by simp [Reading.notices, hkind]
  | unrecognized =>
    rw [hk] at hkind
    refine Or.inr (Or.inr (Or.inr (Or.inr
      ⟨⟨x.line.position, .unrecognizedLine x.line.text⟩, ?_, rfl, rfl, Or.inl rfl⟩)))
    exact mem_diagnostics_of_notices hx rfl fun r => by simp [Reading.notices, hkind]

/-- **No loss, no duplication, source order.** The nodes of a tree in pre-order are the tag lines
and the text lines outside style blocks, one for one and in order, each with the position of its
line and with the tag, the text and the binding that the scan of the line has found; every other
line outside style blocks is accounted for. -/
theorem preorder_is_source_order (src : Bytes) :
    (ofSource src).map Row.line = Line.ofSource src ∧
    (Node.preorderAll 0 (SourceTree.ofSource src).nodes).map
        (fun y => y.2.item.mapElement Element.bare) = (ofSource src).filterMap Row.bare? ∧
    ∀ x ∈ ofSource src, x.inStyle = false →
      (LineKind.ofText x.line.text).Accepts x.line.text ∧
      (x.bare?.isSome ∨ LineKind.isClosing x.line.text ∨
        (Style.Directive.parse? x.line.text).isSome ∨
        (∃ d, StateLine.parse? x.line.text = some d ∧
          d.name ∈ (SourceTree.ofSource src).states.names) ∨
        ∃ d ∈ (SourceTree.ofSource src).diagnostics, d.position = x.line.position ∧
          d.severity = .error ∧ (d.problem = .unrecognizedLine x.line.text ∨
            ∃ s, StateLine.parse? x.line.text = some s ∧ d.problem = .stateName s.name)) := by
  refine ⟨map_line_ofLines _, ?_, fun x hx hout =>
    ⟨LineKind.accepts_ofText x.line.text, row_cases hx hout⟩⟩
  calc (Node.preorderAll 0 (SourceTree.ofSource src).nodes).map
        (fun y => y.2.item.mapElement Element.bare)
      = (Node.items (SourceTree.ofSource src).nodes).map (Item.mapElement Element.bare) := by
        rw [← Node.map_item_preorderAll 0, List.map_map]
        rfl
    _ = (ofSource src).filterMap Row.bare? := by
        rw [items_nodes, List.map_filterMap]
        exact List.filterMap_congr fun x _ => map_bare_item? _ x

/-- A line that is nothing of what a line can be is reported where it stands. -/
theorem preorder_is_source_order_stray : ∃ tag stray : Row,
    ofSource (utf8 "p \"a\"\n  ?") = [tag, stray] ∧ stray.inStyle = false ∧
    ∃ d ∈ (SourceTree.ofSource (utf8 "p \"a\"\n  ?")).diagnostics,
      d.position = stray.line.position ∧ d.severity = .error := by
  have h : ofSource (utf8 "p \"a\"\n  ?") =
      [⟨⟨1, 0, utf8 "p \"a\""⟩, false⟩, ⟨⟨2, 2, utf8 "?"⟩, false⟩] := by decide +kernel
  obtain ⟨-, -, hrows⟩ := preorder_is_source_order (utf8 "p \"a\"\n  ?")
  have hstray := (hrows ⟨⟨2, 2, utf8 "?"⟩, false⟩ (by simp [h]) rfl).2
  refine ⟨_, _, h, rfl, ?_⟩
  -- The scans all fail on it, so that only the report is left.
  have hbare : (⟨⟨2, 2, utf8 "?"⟩, false⟩ : Row).bare? = none := by decide +kernel
  have hclosing : LineKind.isClosing (utf8 "?") = false := by decide +kernel
  have hdirective : Style.Directive.parse? (utf8 "?") = none := by decide +kernel
  have hstate : StateLine.parse? (utf8 "?") = none := by decide +kernel
  rcases hstray with hs | hs | hs | ⟨d, hs, -⟩ | ⟨d, hd, hposition, hseverity, -⟩
  · exact absurd hs (by simp [hbare])
  · exact absurd hs (by simp [hclosing])
  · exact absurd hs (by simp [hdirective])
  · exact absurd hs (by simp [hstate])
  · exact ⟨d, hd, hposition, hseverity⟩

end Layout

end LiveMarkup

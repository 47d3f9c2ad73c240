import LiveMarkup.Proofs.Source.Line
import LiveMarkup.Proofs.State
import LiveMarkup.Proofs.Tree.Steps

/-!
# What a whole reading records

The parts of a reading that do not depend on what is open, for all its lines at once. The rows of a
reading are those of the layout (`LiveMarkup.Layout.ofLines_append_singleton`), so that its states
and its handlers are read off them in order, and each diagnostic belongs to one row
(`LiveMarkup.Reading.mem_diagnostics_ofLines`).

All of it is by induction on the last line: what one line does is in
`LiveMarkup.Proofs.Tree.Steps`.
-/

namespace LiveMarkup

namespace Reading

theorem ofLines_append_singleton (ls : List Line) (l : Line) :
    ofLines (ls ++ [l]) = (ofLines ls).step l := by
  rw [ofLines, List.foldl_append, List.foldl_cons, List.foldl_nil, ofLines]

end Reading

namespace Layout

theorem ofLines_snoc (ls : List Line) (l : Line) :
    ofLines (ls ++ [l]) = ofLines ls ++ [⟨l, (openStyle (ofLines ls)).any (· < l.indent)⟩] := by
  rw [ofLines, List.foldl_append, List.foldl_cons, List.foldl_nil, add, ofLines]

/-- **The style block that is open** after lines is the one that their layout says. -/
theorem style_ofLines (ls : List Line) :
    (Reading.ofLines ls).style = openStyle (ofLines ls) := by
  induction ls using List.reverseRecOn with
  | nil => rfl
  | append_singleton ls l ih =>
    rw [Reading.ofLines_append_singleton, Reading.style_step, ofLines_snoc,
      openStyle_append_singleton, Reading.row, Reading.inStyle, ih]

/-- **The rows of a reading are those of the layout.** -/
theorem ofLines_append_singleton (ls : List Line) (l : Line) :
    ofLines (ls ++ [l]) = ofLines ls ++ [(Reading.ofLines ls).row l] := by
  rw [ofLines_snoc, Reading.row, Reading.inStyle, style_ofLines]

theorem map_line_ofLines (ls : List Line) : (ofLines ls).map Row.line = ls := by
  induction ls using List.reverseRecOn with
  | nil => rfl
  | append_singleton ls l ih => rw [ofLines_append_singleton, List.map_append, ih]; rfl

theorem map_position_ofLines (ls : List Line) :
    (ofLines ls).map (fun y => y.line.position) = ls.map Line.position := by
  have h := congrArg (List.map Line.position) (map_line_ofLines ls)
  rwa [List.map_map] at h

/-- The significant lines of a source make rows with distinct positions. -/
theorem nodup_positions_ofSource (src : Bytes) :
    ((ofSource src).map fun y => y.line.position).Nodup := by
  rw [ofSource, map_position_ofLines]
  exact Line.nodup_positions_ofSource src

/-- The rows in front of a row are the rows of the lines in front of it. -/
theorem eq_ofLines_of_append {ls : List Line} {before more : List Row}
    (h : ofLines ls = before ++ more) : before = ofLines (before.map Row.line) := by
  induction ls using List.reverseRecOn generalizing more with
  | nil =>
    obtain ⟨rfl, -⟩ := List.append_eq_nil_iff.mp h.symm
    rfl
  | append_singleton ls l ih =>
    -- Either nothing follows, or the last line belongs to what follows.
    rcases List.eq_nil_or_concat more with rfl | ⟨more', y, rfl⟩
    · rw [List.append_nil] at h
      rw [← h, map_line_ofLines]
    · have h' : ofLines ls ++ [(Reading.ofLines ls).row l] = (before ++ more') ++ [y] := by
        rw [← ofLines_append_singleton, h]
        simp
      exact ih (List.append_inj_left' h' rfl)

end Layout

/-! ### Declared names -/

namespace StateTable

/-- **What is declared after rows**: what was declared before, and what one of them declares. -/
theorem has_foldl_after {rows : List Row} {t : StateTable} {x : Bytes} :
    (rows.foldl (fun t y => t.after y) t).has x ↔
      t.has x ∨ ∃ y ∈ rows, ∃ d, y.state? = some d ∧ d.name = x := by
  induction rows generalizing t with
  | nil => simp
  | cons y rows ih =>
    have hcons : (∃ z ∈ y :: rows, ∃ d, z.state? = some d ∧ d.name = x) ↔
        (∃ d, y.state? = some d ∧ d.name = x) ∨
          ∃ z ∈ rows, ∃ d, z.state? = some d ∧ d.name = x := by
      simp
    rw [List.foldl_cons, ih, hcons, ← or_assoc]
    refine or_congr_left ?_
    rw [after]
    cases hy : y.state? with
    | none => simp
    | some d =>
      rw [has_declare]
      refine or_congr_right ?_
      simp [eq_comm]

end StateTable

/-! ### States, handlers and diagnostics -/

namespace Reading

open Layout (append_singleton_split)

/-- **The states of a reading** are declared by its rows, one after another. -/
theorem states_ofLines (ls : List Line) :
    (ofLines ls).states = (Layout.ofLines ls).foldl (fun t x => t.after x) {} := by
  induction ls using List.reverseRecOn with
  | nil => rfl
  | append_singleton ls l ih =>
    rw [ofLines_append_singleton, states_step, Layout.ofLines_append_singleton, List.foldl_append,
      ← ih, List.foldl_cons, List.foldl_nil]

/-- **The handlers of a reading** are those of its rows, one after another. -/
theorem handlers_ofLines (ls : List Line) :
    (ofLines ls).handlers = (Layout.ofLines ls).flatMap Row.handlers := by
  induction ls using List.reverseRecOn with
  | nil => rfl
  | append_singleton ls l ih =>
    rw [ofLines_append_singleton, handlers_step, Layout.ofLines_append_singleton,
      List.flatMap_append, ← ih, List.flatMap_singleton]

/-- **Each diagnostic of a reading belongs to a row**: it is one of the reports about that row,
where the lines in front of it have been read. -/
theorem mem_diagnostics_ofLines {ls : List Line} {d : Diagnostic} :
    d ∈ (ofLines ls).diagnostics ↔
      ∃ (before : List Row) (x : Row) (after : List Row), Layout.ofLines ls = before ++ x :: after ∧
      d ∈ (ofLines (before.map Row.line)).notices x := by
  induction ls using List.reverseRecOn with
  | nil => simp [ofLines, Layout.ofLines]
  | append_singleton ls l ih =>
    rw [ofLines_append_singleton, diagnostics_step, List.mem_append, ih,
      Layout.ofLines_append_singleton]
    constructor
    · rintro (⟨before, x, after, heq, hd⟩ | hd)
      · exact ⟨before, x, after ++ [(ofLines ls).row l], by simp [heq], hd⟩
      · exact ⟨Layout.ofLines ls, (ofLines ls).row l, [], rfl, by rwa [Layout.map_line_ofLines]⟩
    · rintro ⟨before, x, after, heq, hd⟩
      rcases append_singleton_split heq with ⟨rfl, rfl, -⟩ | ⟨after, -, hrest⟩
      · rw [Layout.map_line_ofLines] at hd
        exact Or.inr hd
      · exact Or.inl ⟨before, x, after, hrest, hd⟩

/-- The reports of a reading are about no name that is not declared. -/
theorem not_isReference_of_mem_diagnostics {ls : List Line} {d : Diagnostic}
    (h : d ∈ (ofLines ls).diagnostics) : d.problem.isReference = false := by
  obtain ⟨before, x, after, -, hd⟩ := mem_diagnostics_ofLines.mp h
  exact not_isReference_of_mem_notices hd

end Reading

namespace SourceTree

/-- **A name is declared exactly when some line of the source declares it**, wherever it is used. -/
theorem has_states_iff {src x : Bytes} : (ofSource src).states.has x ↔
    ∃ y ∈ Layout.ofSource src, ∃ d, y.state? = some d ∧ d.name = x := by
  have hstates := Reading.states_ofLines (Line.ofSource src)
  rw [ofSource, ofReading, hstates, StateTable.has_foldl_after]
  simp [StateTable.has, StateTable.lookup?, Layout.ofSource]

theorem mem_undeclaredBindings {states : StateTable} {nodes : List Node} {d : Diagnostic} :
    d ∈ undeclaredBindings states nodes ↔
      ∃ x p, (x, p) ∈ Node.bindings nodes ∧ states.has x = false ∧
        d = ⟨p, .undeclaredBinding x⟩ := by
  rw [undeclaredBindings, List.mem_filterMap]
  constructor
  · rintro ⟨⟨x, p⟩, hmem, hd⟩
    cases hx : states.has x with
    | true => exact absurd hd (by simp [hx])
    | false => exact ⟨x, p, hmem, hx, by simpa [hx] using hd.symm⟩
  · rintro ⟨x, p, hmem, hx, rfl⟩
    exact ⟨(x, p), hmem, by simp [hx]⟩

theorem problem_of_mem_undeclaredTargets {states : StateTable} {handlers : List Handler}
    {d : Diagnostic} (h : d ∈ undeclaredTargets states handlers) :
    ∃ x event, d.problem = .undeclaredTarget x event := by
  obtain ⟨a, -, ha⟩ := List.mem_filterMap.mp h
  split at ha
  · split at ha
    · exact absurd ha (by simp)
    · obtain rfl := Option.some.inj ha
      exact ⟨_, _, rfl⟩
  · exact absurd ha (by simp)

/-- **What is reported before the end of a source is reported about a row.** -/
theorem mem_diagnostics_ofSource {src : Bytes} {d : Diagnostic}
    (h : d.problem.isReference = false) : d ∈ (ofSource src).diagnostics ↔
      ∃ (before : List Row) (x : Row) (after : List Row),
        Layout.ofSource src = before ++ x :: after ∧
        d ∈ (Reading.ofLines (before.map Row.line)).notices x := by
  rw [Layout.ofSource, ← Reading.mem_diagnostics_ofLines, ofSource, ofReading, List.mem_append,
    List.mem_append]
  constructor
  · rintro ((hd | hd) | hd)
    · exact hd
    · obtain ⟨x, p, -, -, rfl⟩ := mem_undeclaredBindings.mp hd
      exact absurd h (by simp [Problem.isReference])
    · obtain ⟨x, event, hx⟩ := problem_of_mem_undeclaredTargets hd
      exact absurd h (by simp [hx, Problem.isReference])
  · intro hd
    exact Or.inl (Or.inl hd)

end SourceTree

end LiveMarkup

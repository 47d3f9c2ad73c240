import LiveMarkup.Proofs.Tree.Spelling

/-!
# The declarations of a source

A name that is declared again keeps its place and takes the new initializer. So the table of a
source has the names in the order of their first declarations, each once, with the initializers of
their last ones: `LiveMarkup.SourceTree.map_declarations`. The lines of a source declare one state
each or none, and what many declarations make of a table is in `LiveMarkup.Proofs.State`.

A declared name can be written in quotation marks as it is (`LiveMarkup.Row.isBinding_of_state?`),
and an initializer is the end of its line, octet for octet (`LiveMarkup.StateLine.eq_of_parse?`).
-/

namespace LiveMarkup

namespace StateLine

/-- An initializer is the end of what stands after the equals sign, on one line and not empty. -/
theorem eq_of_initializer? {s init : Bytes} (h : initializer? s = some init) :
    (∃ blanks : Bytes, s = blanks ++ init ∧ blanks.all isPatternBlank) ∧ init ≠ [] ∧
      octet '\n' ∉ init := by
  have hblanks : (s.takeWhile isPatternBlank).all isPatternBlank = true := List.all_takeWhile
  have hsplit := List.takeWhile_append_dropWhile (p := isPatternBlank) (l := s)
  rw [initializer?] at h
  generalize hinit : (if (s.dropWhile isPatternBlank).isEmpty = true then
    s.drop (s.length - 1) else s.dropWhile isPatternBlank) = t at h
  split at h
  · exact absurd h (by simp)
  · rename_i hnot
    obtain rfl := Option.some.inj h
    rw [not_or] at hnot
    refine ⟨?_, fun hnil => hnot.1 (by simp [hnil]), hnot.2⟩
    split at hinit
    · -- Nothing but blanks: the last one of them is the initializer.
      rename_i hempty
      rw [List.isEmpty_iff.mp hempty, List.append_nil] at hsplit
      refine ⟨s.take (s.length - 1), ?_, ?_⟩
      · rw [← hinit, List.take_append_drop]
      · rw [hsplit] at hblanks
        exact List.all_eq_true.mpr fun b hb =>
          List.all_eq_true.mp hblanks b (List.mem_of_mem_take hb)
    · exact ⟨s.takeWhile isPatternBlank, by rw [← hinit, hsplit], hblanks⟩

/-- **A declaration is read as it is written**: the line is the keyword, the name, an equals sign
and the initializer, with nothing but blanks between them. -/
theorem eq_of_parse? {s : Bytes} {d : StateLine} (h : parse? s = some d) :
    (∃ gap before after : Bytes,
      s = utf8 "state" ++ gap ++ d.name ++ before ++ utf8 "=" ++ after ++ d.initializer ∧
      gap ≠ [] ∧ (gap ++ before ++ after).all isPatternBlank) ∧
    isWord (fun b => isAlphaOctet b || b == octet '_') isIdentOctet d.name ∧
    octet '\n' ∉ d.initializer := by
  -- The parts are read one behind another, and each of them can fail.
  rw [parse?] at h
  split at h
  · exact absurd h (by simp)
  rename_i r hr
  split at h
  swap
  · exact absurd h (by simp)
  rename_i hgap
  split at h
  · exact absurd h (by simp)
  rename_i b t ht
  split at h
  swap
  · exact absurd h (by simp)
  rename_i hb
  split at h
  · exact absurd h (by simp)
  rename_i c u hu
  split at h
  swap
  · exact absurd h (by simp)
  rename_i hc
  obtain ⟨init, hinit, rfl⟩ := Option.map_eq_some_iff.mp h
  obtain ⟨⟨after, hafter, hblanks⟩, -, hline⟩ := eq_of_initializer? hinit
  -- What is read is put together again, from the back.
  have hr' : r = r.takeWhile isPatternBlank ++ b :: t := by
    rw [← ht, List.takeWhile_append_dropWhile]
  have ht' : t = t.takeWhile isIdentOctet ++
      ((t.dropWhile isIdentOctet).takeWhile isPatternBlank ++ c :: u) := by
    rw [← hu, List.takeWhile_append_dropWhile, List.takeWhile_append_dropWhile]
  refine ⟨⟨r.takeWhile isPatternBlank, (t.dropWhile isIdentOctet).takeWhile isPatternBlank, after,
    ?_, ?_, ?_⟩, ?_, hline⟩
  · calc s = utf8 "state" ++ r := Bytes.eq_of_after? hr
      _ = utf8 "state" ++ (r.takeWhile isPatternBlank ++ b :: (t.takeWhile isIdentOctet ++
          ((t.dropWhile isIdentOctet).takeWhile isPatternBlank ++ c :: (after ++ init)))) := by
        rw [← hafter, ← ht', ← hr']
      _ = _ := by
        rw [hc]
        simp
        rfl
  · cases r with
    | nil => exact absurd hgap (by simp)
    | cons a r =>
      rw [List.takeWhile_cons_of_pos (by simpa using hgap)]
      exact List.cons_ne_nil _ _
  · simp only [List.all_append, List.all_takeWhile, hblanks, Bool.and_self]
  · rw [isWord, hb, Bool.true_and]
    exact List.all_takeWhile

end StateLine

namespace Row

/-- The declaration of a row is what the scan for declarations finds on it. -/
theorem parse?_of_state? {x : Row} {d : StateLine} (h : x.state? = some d) :
    StateLine.parse? x.line.text = some d := by
  obtain ⟨k, hk, hkd⟩ := Option.bind_eq_some_iff.mp h
  have haccepts := accepts_of_kind? hk
  cases k with
  | state d' =>
    obtain rfl := Option.some.inj hkd
    exact haccepts
  | _ => exact absurd hkd (by simp [LineKind.state?])

/-- A name with a capital letter at its start is not declared. -/
theorem isBindingStart_of_state? {x : Row} {d : StateLine} (h : x.state? = some d) :
    d.name.head?.any isBindingStart := by
  obtain ⟨k, hk, hkd⟩ := Option.bind_eq_some_iff.mp h
  cases k with
  | state d' =>
    obtain rfl := Option.some.inj hkd
    rw [kind?] at hk
    split at hk
    · exact absurd hk (by simp)
    · have htext := Option.some.inj hk
      -- Of all cases only one gives a declaration, and there the start of the name was asked for.
      rw [LineKind.ofText] at htext
      split at htext
      · exact absurd htext (by simp)
      · split at htext
        · rw [LineKind.ofState] at htext
          split at htext
          · exact absurd htext (by simp)
          · split at htext
            · rename_i hstart
              obtain rfl := LineKind.state.inj htext
              exact hstart
            · exact absurd htext (by simp)
        · split at htext
          · exact absurd htext (by simp)
          · split at htext <;> split at htext <;> exact absurd htext (by simp)
  | _ => exact absurd hkd (by simp [LineKind.state?])

/-- **A declared name has the form of a binding.** -/
theorem isBinding_of_state? {x : Row} {d : StateLine} (h : x.state? = some d) :
    isBinding d.name := by
  obtain ⟨-, hword, -⟩ := StateLine.eq_of_parse? (parse?_of_state? h)
  have hstart := isBindingStart_of_state? h
  cases hname : d.name with
  | nil =>
    rw [hname] at hstart
    exact absurd hstart (by simp)
  | cons b r =>
    rw [hname] at hword hstart
    rw [isWord, Bool.and_eq_true] at hword
    rw [isBinding, isWord, hword.2, Bool.and_true]
    simpa using hstart

end Row

/-! ### The table after some lines -/

namespace StateTable

/-- The initializer of a name, if it is declared. -/
def initializer? (t : StateTable) (x : Bytes) : Option Bytes :=
  (t.lookup? x).map StateDeclaration.initializer

theorem initializer?_of_mem {t : StateTable} {d : StateDeclaration} (hd : d ∈ t.declarations) :
    t.initializer? d.name = some d.initializer := by
  rw [initializer?, lookup?_eq_some_iff.mpr ⟨hd, rfl⟩, Option.map_some]

end StateTable

/-- The declaration on a row. -/
def Row.declaration? (x : Row) : Option StateDeclaration :=
  x.state?.map fun d => ⟨d.name, d.initializer, x.line.position⟩

/-- The initializer of a name in the last of some declarations with that name. -/
def StateLine.lastInitializer? (x : Bytes) (ds : List StateLine) : Option Bytes :=
  ((ds.filter fun d => d.name = x).getLast?).map StateLine.initializer

theorem StateLine.exists_of_lastInitializer? {x init : Bytes} {ds : List StateLine}
    (h : lastInitializer? x ds = some init) : ∃ d ∈ ds, d.name = x ∧ d.initializer = init := by
  obtain ⟨d, hd, rfl⟩ := Option.map_eq_some_iff.mp h
  have hmem := List.mem_filter.mp (List.mem_of_getLast? hd)
  exact ⟨d, hmem.1, of_decide_eq_true hmem.2, rfl⟩

namespace Layout

theorem foldl_after_eq_declareAll (rows : List Row) (t : StateTable) :
    rows.foldl (fun t x => t.after x) t =
      StateTable.declareAll (rows.filterMap Row.declaration?) t := by
  induction rows generalizing t with
  | nil => rfl
  | cons x rows ih =>
    rw [List.foldl_cons, ih, StateTable.after, List.filterMap_cons, Row.declaration?]
    cases x.state? <;> rfl

/-- **The table after some rows**: the names in the order of their first declarations, each once,
with the initializers of their last declarations. -/
theorem foldl_after (rows : List Row) :
    let t := rows.foldl (fun t y => t.after y) ({} : StateTable)
    let ds := rows.filterMap Row.state?
    t.names = (ds.map StateLine.name).eraseDups ∧
      ∀ x, t.initializer? x = StateLine.lastInitializer? x ds := by
  intro t ds
  have ht : t = StateTable.declareAll (rows.filterMap Row.declaration?) {} :=
    foldl_after_eq_declareAll rows {}
  have hds : ds = (rows.filterMap Row.declaration?).map fun d => ⟨d.name, d.initializer⟩ := by
    rw [List.map_filterMap]
    refine List.filterMap_congr fun y _ => ?_
    rw [Row.declaration?, Option.map_map]
    exact Option.map_id'.symm
  rw [ht, hds, List.map_map]
  refine ⟨StateTable.names_declareAll _, fun x => ?_⟩
  rw [StateTable.initializer?, StateTable.lookup?_declareAll,
    StateDeclaration.map_initializer_combined?, StateLine.lastInitializer?, List.filter_map,
    List.getLast?_map, Option.map_map]
  rfl

end Layout

namespace SourceTree

theorem states_eq_foldl (src : Bytes) : (ofSource src).states =
    (Layout.ofSource src).foldl (fun t y => t.after y) {} :=
  Reading.states_ofLines (Line.ofSource src)

/-- **The names of a source** are in the order of their first declarations, each once. -/
theorem names_states (src : Bytes) : (ofSource src).states.names =
    (((Layout.ofSource src).filterMap Row.state?).map StateLine.name).eraseDups := by
  rw [states_eq_foldl]
  exact (Layout.foldl_after (Layout.ofSource src)).1

/-- **The states of a source**: the names in the order of their first declarations, each with the
initializer of its last declaration. -/
theorem map_declarations (src : Bytes) :
    let ds := (Layout.ofSource src).filterMap Row.state?
    (ofSource src).states.declarations.map (fun d => (d.name, d.initializer)) =
      (ds.map StateLine.name).eraseDups.map
        fun x => (x, (StateLine.lastInitializer? x ds).getD []) := by
  intro ds
  rw [← names_states, StateTable.names, List.map_map]
  refine List.map_congr_left fun d hd => ?_
  have hd' := StateTable.initializer?_of_mem hd
  rw [states_eq_foldl, (Layout.foldl_after (Layout.ofSource src)).2] at hd'
  simp only [Function.comp_apply, ds, hd', Option.getD_some]

/-- **A declaration of a source comes from a line** that declares its name with its initializer. -/
theorem exists_row_of_mem_declarations {src : Bytes} {d : StateDeclaration}
    (h : d ∈ (ofSource src).states.declarations) : ∃ y ∈ Layout.ofSource src,
      y.state? = some ⟨d.name, d.initializer⟩ := by
  have hd := StateTable.initializer?_of_mem h
  rw [states_eq_foldl, (Layout.foldl_after (Layout.ofSource src)).2] at hd
  obtain ⟨l, hl, hname, hinit⟩ := StateLine.exists_of_lastInitializer? hd
  obtain ⟨y, hy, hyl⟩ := List.mem_filterMap.mp hl
  refine ⟨y, hy, ?_⟩
  rw [hyl, ← hname, ← hinit]

theorem isBinding_of_mem_declarations {src : Bytes} {d : StateDeclaration}
    (h : d ∈ (ofSource src).states.declarations) : isBinding d.name := by
  obtain ⟨y, -, hy⟩ := exists_row_of_mem_declarations h
  exact Row.isBinding_of_state? hy

theorem feed_notMem_initializer {src : Bytes} {d : StateDeclaration}
    (h : d ∈ (ofSource src).states.declarations) : octet '\n' ∉ d.initializer := by
  obtain ⟨y, -, hy⟩ := exists_row_of_mem_declarations h
  exact (StateLine.eq_of_parse? (Row.parse?_of_state? hy)).2.2

end SourceTree

end LiveMarkup

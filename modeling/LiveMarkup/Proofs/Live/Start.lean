import LiveMarkup.Live.Store
import LiveMarkup.Proofs.State

/-!
# The page at its start

A page starts by evaluating the initializers of its states one after another, each over the record
of those before it; then it refreshes every state once. `LiveMarkup.Store.exists_of_start` says what
the page is then: the bindings of the states in order, one refresh for each of them, and the
placeholders and the wirings of the document.

Programs are kept by the texts they were compiled from. As long as each of them is what its text is
compiled to (`LiveMarkup.Store.Cached`), a text has the value that the evaluator gives it, whether
it has been compiled before or not, and an evaluation changes nothing but the programs that are kept
(`LiveMarkup.Store.Cached.exists_eval`).

Nothing is asked of the evaluator. No two initializers are evaluated over the same record, so it may
even read a clock.
-/

namespace LiveMarkup

namespace Fields

variable {α : Type}

theorem get?_isSome_iff {k : Bytes} {fs : Fields α} :
    (get? k fs).isSome ↔ k ∈ fs.map Prod.fst := by
  induction fs with
  | nil => simp [get?]
  | cons f fs ih =>
    obtain ⟨k', v⟩ := f
    rw [get?]
    split
    · rename_i hk
      simp [hk]
    · rename_i hk
      rw [ih, List.map_cons, List.mem_cons, or_iff_right (Ne.symm hk)]

theorem ofList_append_singleton (l : List (Bytes × α)) (f : Bytes × α) :
    ofList (l ++ [f]) = insert f.1 f.2 (ofList l) := by
  rw [ofList, List.foldl_append, List.foldl_cons, List.foldl_nil, ofList]

/-- **The last binding of a name counts.** -/
theorem get?_ofList (k : Bytes) (l : List (Bytes × α)) :
    get? k (ofList l) = ((l.filter fun f => f.1 = k).getLast?).map Prod.snd := by
  induction l using List.reverseRecOn with
  | nil => rfl
  | append_singleton l f ih =>
    rw [ofList_append_singleton, get?_insert, List.filter_append]
    by_cases hk : f.1 = k
    · rw [if_pos hk, List.filter_cons_of_pos (by simpa using hk), List.filter_nil,
        List.getLast?_concat, Option.map_some]
    · rw [if_neg hk, List.filter_cons_of_neg (by simpa using hk), List.filter_nil,
        List.append_nil, ih]

/-- Without repetitions every binding counts. -/
theorem get?_ofList_of_mem {l : List (Bytes × α)} (h : (l.map Prod.fst).Nodup) {f : Bytes × α}
    (hf : f ∈ l) : get? f.1 (ofList l) = some f.2 := by
  have honly : l.filter (fun g => g.1 = f.1) = [f] := by
    induction l with
    | nil => exact absurd hf (by simp)
    | cons g l ih =>
      rw [List.map_cons, List.nodup_cons] at h
      rcases List.mem_cons.mp hf with rfl | hmem
      · rw [List.filter_cons_of_pos (by simp)]
        refine congrArg (f :: ·) (List.filter_eq_nil_iff.mpr fun g hg hgf => h.1 ?_)
        rw [← of_decide_eq_true hgf]
        exact List.mem_map_of_mem hg
      · have hne : g.1 ≠ f.1 := fun heq => h.1 (heq ▸ List.mem_map_of_mem hmem)
        rw [List.filter_cons_of_neg (by simpa using hne)]
        exact ih h.2 hmem
  rw [get?_ofList, honly]
  rfl

end Fields

namespace Store

variable {E : Evaluator} {s s' : Store E}

/-! ### Evaluation -/

/-- **The programs that a page keeps** are those that its evaluator compiles their texts to. -/
def Cached (s : Store E) : Prop :=
  ∀ code p, Fields.get? code s.programs = some p → E.compile? code = some p

namespace Cached

theorem insert (h : s.Cached) {code : Bytes} {p : E.Program} (hp : E.compile? code = some p) :
    Cached { s with programs := Fields.insert code p s.programs } := by
  intro code' p' hget
  rw [Fields.get?_insert] at hget
  split at hget
  · rename_i hcode
    rw [← hcode, hp, hget]
  · exact h code' p' hget

/-- **A text has the value that the evaluator gives it**, whether its program is kept or not, and
nothing but the programs is changed. -/
theorem exists_eval (h : s.Cached) (code : Bytes) :
    ∃ programs, s.eval code = (E.evaluate? s.state code, { s with programs }) ∧
      Cached { s with programs } := by
  rw [eval, Evaluator.evaluate?]
  split
  · rename_i p hp
    exact ⟨s.programs, by rw [h code p hp, Option.bind_some], h⟩
  · cases hp : E.compile? code with
    | some p => exact ⟨_, rfl, h.insert hp⟩
    | none => exact ⟨s.programs, rfl, h⟩

end Cached

/-! ### The start -/

theorem cached_blank (E : Evaluator) (t : SourceTree) : (blank E t).Cached :=
  fun code p hp => absurd hp (by simp [blank, Fields.get?])

/-- **The bindings that the initializers make**: each is evaluated with the bindings before it. -/
theorem exists_of_declareAll {ds : List StateDeclaration} {l : List (Bytes × E.Value)}
    (hcached : s.Cached) (hl : s.state = Fields.ofList l) (h : s.declareAll ds = .ok s') :
    ∃ l' : List (Bytes × E.Value),
      s' = { s with programs := s'.programs, state := Fields.ofList (l ++ l') } ∧ s'.Cached ∧
      l'.map Prod.fst = ds.map StateDeclaration.name ∧
      ∀ i d, ds[i]? = some d → ∃ f, l'[i]? = some f ∧
        E.evaluate? (Fields.ofList (l ++ l'.take i)) d.initializer = some f.2 := by
  induction ds generalizing s l with
  | nil =>
    obtain rfl := Except.ok.inj h
    exact ⟨[], by rw [List.append_nil, ← hl], hcached, rfl, fun i d hd => absurd hd (by simp)⟩
  | cons d ds ih =>
    rw [declareAll] at h
    split at h
    swap
    · exact absurd h (by simp)
    rename_i v s₁ hs₁
    -- The page after the evaluation differs by the programs only.
    obtain ⟨programs, heval, hcached₁⟩ := hcached.exists_eval d.initializer
    obtain ⟨hvalue, rfl⟩ := Prod.mk.inj (heval.symm.trans hs₁)
    have hstate : Fields.insert d.name v s.state = Fields.ofList (l ++ [(d.name, v)]) := by
      rw [Fields.ofList_append_singleton, hl]
    obtain ⟨l', hs', hcached', hnames, hvalues⟩ :=
      ih (s := { s with programs, state := Fields.insert d.name v s.state }) hcached₁ hstate h
    refine ⟨(d.name, v) :: l', ?_, hcached', by rw [List.map_cons, List.map_cons, hnames],
      fun i d' hd' => ?_⟩
    · rwa [List.append_assoc] at hs'
    cases i with
    | zero =>
      obtain rfl : d = d' := Option.some.inj hd'
      exact ⟨_, rfl, by rw [List.take_zero, List.append_nil, ← hl, hvalue]⟩
    | succ i =>
      obtain ⟨f, hf, heval'⟩ := hvalues i d' hd'
      refine ⟨f, hf, ?_⟩
      rw [List.take_succ_cons, ← heval', List.append_assoc, List.singleton_append]

theorem foldl_refresh (names : List Bytes) (s : Store E) : names.foldl refresh s =
    { s with refreshes := s.refreshes ++ names.map fun x =>
        ⟨x, (Fields.get? x s.state).getD (E.constant .null), s.placeholders x⟩ } := by
  induction names generalizing s with
  | nil => rw [List.foldl_nil, List.map_nil, List.append_nil]
  | cons x names ih =>
    rw [List.foldl_cons, ih, List.map_cons, refresh]
    simp only [placeholders, List.append_assoc, List.singleton_append]

/-- **The page at its start**: the states in order with the values of their initializers, one
refresh for each, and what was collected while the document was written. -/
theorem exists_of_start {t : SourceTree} (h : start E t = .ok s) :
    ∃ l : List (Bytes × E.Value), l.map Prod.fst = t.states.names ∧
      (∀ i d, t.states.declarations[i]? = some d → ∃ f, l[i]? = some f ∧
        E.evaluate? (Fields.ofList (l.take i)) d.initializer = some f.2) ∧ s.Cached ∧
      s = { blank E t with
            programs := s.programs
            state := Fields.ofList l
            refreshes := l.map fun f => ⟨f.1, f.2, (blank E t).placeholders f.1⟩ } := by
  rw [start] at h
  split at h
  · exact absurd h (by simp)
  rename_i s₁ hdeclared
  obtain rfl := Except.ok.inj h
  obtain ⟨l, hs₁, hcached, hl, hvalues⟩ :=
    exists_of_declareAll (l := []) (cached_blank E t) rfl hdeclared
  rw [List.nil_append] at hs₁
  have hnodup : (l.map Prod.fst).Nodup := by
    rw [hl]
    exact t.states.distinct
  refine ⟨l, hl, hvalues, ?_, ?_⟩
  · rw [foldl_refresh]
    exact hcached
  · -- Since no name is declared twice, a refresh shows what its own initializer gave.
    have hrefreshes : t.states.names.map (fun x => (⟨x, (Fields.get? x (Fields.ofList l)).getD
        (E.constant .null), (blank E t).placeholders x⟩ : Refresh E.Value)) =
          l.map fun f => ⟨f.1, f.2, (blank E t).placeholders f.1⟩ := by
      rw [StateTable.names, ← hl, List.map_map]
      refine List.map_congr_left fun f hf => ?_
      rw [Function.comp_apply, Fields.get?_ofList_of_mem hnodup hf, Option.getD_some]
    rw [foldl_refresh, hs₁]
    dsimp only
    rw [← hrefreshes]
    rfl

/-- **A page that starts has the placeholders of its document.** -/
theorem placeholders_of_start {t : SourceTree} (h : start E t = .ok s) (x : Bytes) :
    s.placeholders x = (Document.elements t.states t.nodes).2.placeholders x := by
  obtain ⟨l, -, -, -, hs⟩ := exists_of_start h
  rw [hs]
  rfl

/-- A page that starts has the wirings of its document. -/
theorem wirings_of_start {t : SourceTree} (h : start E t = .ok s) :
    s.wirings = (Document.elements t.states t.nodes).2.wirings := by
  obtain ⟨l, -, -, -, hs⟩ := exists_of_start h
  rw [hs]
  rfl

end Store

end LiveMarkup

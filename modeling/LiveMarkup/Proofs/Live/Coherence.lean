import LiveMarkup.Proofs.Document.Bindings
import LiveMarkup.Proofs.Tree.Declarations
import Mathlib.Logic.Relation

/-!
# The refreshes of a running page are the history of its state

A running page is called from outside: an event is dispatched to an element, a handler is carried
out, or a state is set (`LiveMarkup.Store.Call`). A call may fail, and a dispatch may fail after
some of its handlers. Whatever a call does, it does in steps that keep a program or set a state
(`LiveMarkup.Store.Step`, `LiveMarkup.Store.steps_perform`), so an invariant has to be shown for
these two only.

The invariant is `LiveMarkup.Store.Coherent`: the value of a name is that of its last refresh, a
refresh has the number of placeholders of its name, and the programs are those of their texts. The
page starts with one refresh for each declared state (`LiveMarkup.Store.coherent_of_start`), and no
step removes one.
-/

namespace LiveMarkup

namespace Store

variable {E : Evaluator} {s s' : Store E}

/-! ### Calls -/

/-- A call of a running page. -/
inductive Call (E : Evaluator)
  /-- An event at the element with a number. -/
  | dispatch (id : Int) (event : Bytes)
  | fire (h : Handler)
  | update (name : Bytes) (value : E.Value)

/-- The page after a call, and why the call failed if it did. -/
def perform (s : Store E) : Call E → Store E × Option ActionError
  | .dispatch id event => s.dispatch id event
  | .fire h => s.fire h
  | .update name value => (s.update name value, none)

/-- The page after some calls, of which any may fail. -/
def performAll (s : Store E) (cs : List (Call E)) : Store E :=
  cs.foldl (fun s c => (s.perform c).1) s

theorem performAll_append (s : Store E) (cs ds : List (Call E)) :
    s.performAll (cs ++ ds) = (s.performAll cs).performAll ds := by
  rw [performAll, List.foldl_append, performAll, performAll]

/-! ### Steps -/

/-- **What a page does in one step**: it keeps the program of a text, or sets a state. -/
inductive Step : Store E → Store E → Prop
  | keep (s : Store E) {code : Bytes} {p : E.Program} (h : E.compile? code = some p) :
    Step s { s with programs := Fields.insert code p s.programs }
  | update (s : Store E) (x : Bytes) (v : E.Value) : Step s (s.update x v)

/-- One page comes from another one in steps. -/
abbrev Steps : Store E → Store E → Prop := Relation.ReflTransGen Step

theorem steps_eval (s : Store E) (code : Bytes) : s.Steps (s.eval code).2 := by
  rw [eval]
  split
  · exact .refl
  · split
    · rename_i p hp
      exact .single (.keep s hp)
    · exact .refl

theorem steps_run (s : Store E) (st : Statement) : s.Steps (s.run st).1 := by
  have heval := steps_eval s st.valueExpression
  rw [run]
  split
  · rename_i v s' hs'
    rw [hs'] at heval
    exact heval.tail (.update s' _ v)
  · rename_i s' hs'
    rwa [hs'] at heval

theorem steps_runAll (s : Store E) (sts : List Statement) : s.Steps (s.runAll sts).1 := by
  induction sts generalizing s with
  | nil => exact .refl
  | cons st sts ih =>
    have hrun := steps_run s st
    rw [runAll]
    split
    · rename_i s' hs'
      rw [hs'] at hrun
      exact hrun.trans (ih s')
    · rename_i s' e hs'
      rwa [hs'] at hrun

/-- **A call is some steps**, also if it fails. -/
theorem steps_perform (s : Store E) (c : Call E) : s.Steps (s.perform c).1 := by
  cases c with
  | dispatch id event =>
    rw [perform, dispatch]
    split
    · exact .refl
    · exact steps_runAll _ _
  | fire h =>
    rw [perform, fire]
    split
    · exact steps_run s h.statement
    · exact .refl
  | update name value => exact .single (.update s name value)

theorem steps_performAll (s : Store E) (cs : List (Call E)) : s.Steps (s.performAll cs) := by
  induction cs generalizing s with
  | nil => exact .refl
  | cons c cs ih => exact (steps_perform s c).trans (ih (s.perform c).1)

theorem refreshes_update (s : Store E) (x : Bytes) (v : E.Value) :
    (s.update x v).refreshes = s.refreshes ++ [⟨x, v, s.placeholders x⟩] := by
  rw [update, refresh]
  simp only [placeholders, Fields.get?_insert, if_pos, Option.getD_some]

/-- **No refresh is taken back.** -/
theorem Steps.isPrefix_refreshes (h : s.Steps s') : s.refreshes <+: s'.refreshes := by
  induction h with
  | refl => exact List.prefix_refl _
  | tail _ hstep ih =>
    cases hstep with
    | keep => exact ih
    | update x v =>
      rw [refreshes_update]
      exact ih.trans (List.prefix_append _ _)

/-- The placeholders and the wirings of a page do not change. -/
theorem Steps.frame (h : s.Steps s') : s'.markers = s.markers ∧ s'.wirings = s.wirings := by
  induction h with
  | refl => exact ⟨rfl, rfl⟩
  | tail _ hstep ih => cases hstep <;> exact ih

/-! ### Coherence -/

/-- The last refresh of a name. -/
def lastRefresh? (s : Store E) (x : Bytes) : Option (Refresh E.Value) :=
  (s.refreshes.filter fun r => r.name = x).getLast?

theorem lastRefresh?_update (s : Store E) (x y : Bytes) (v : E.Value) :
    (s.update x v).lastRefresh? y =
      if x = y then some ⟨x, v, s.placeholders x⟩ else s.lastRefresh? y := by
  rw [lastRefresh?, refreshes_update, List.filter_append]
  by_cases hxy : x = y
  · rw [if_pos hxy, List.filter_cons_of_pos (by simpa using hxy), List.filter_nil,
      List.getLast?_concat]
  · rw [if_neg hxy, List.filter_cons_of_neg (by simpa using hxy), List.filter_nil,
      List.append_nil, lastRefresh?]

theorem isSome_lastRefresh?_iff {x : Bytes} :
    (s.lastRefresh? x).isSome ↔ x ∈ s.refreshes.map Refresh.name := by
  rw [lastRefresh?, List.getLast?_isSome, Ne, List.filter_eq_nil_iff, List.mem_map]
  simp

/-- The refreshes of a page say what its state is, and its programs are those of their texts. -/
structure Coherent (s : Store E) : Prop where
  value : ∀ x, Fields.get? x s.state = (s.lastRefresh? x).map Refresh.value
  placeholders : ∀ r ∈ s.refreshes, r.placeholders = s.placeholders r.name
  cached : s.Cached

namespace Coherent

/-- The names of the state are those that have been refreshed. -/
theorem mem_names_iff (h : s.Coherent) (x : Bytes) :
    x ∈ s.state.map Prod.fst ↔ x ∈ s.refreshes.map Refresh.name := by
  rw [← Fields.get?_isSome_iff, h.value, Option.isSome_map, isSome_lastRefresh?_iff]

theorem update (h : s.Coherent) (x : Bytes) (v : E.Value) : (s.update x v).Coherent where
  value y := by
    rw [lastRefresh?_update]
    refine (Fields.get?_insert x y v s.state).trans ?_
    split
    · rfl
    · exact h.value y
  placeholders r hr := by
    rw [refreshes_update, List.mem_append, List.mem_singleton] at hr
    rcases hr with hr | rfl
    · exact h.placeholders r hr
    · rfl
  cached := h.cached

/-- **Coherence is kept by every step.** -/
theorem step (h : s.Coherent) (hs : Step s s') : s'.Coherent := by
  cases hs with
  | @keep code p hp => exact { h with cached := h.cached.insert hp }
  | update x v => exact h.update x v

theorem steps (h : s.Coherent) (hs : s.Steps s') : s'.Coherent := by
  induction hs with
  | refl => exact h
  | tail _ hstep ih => exact ih.step hstep

end Coherent

/-- **The page at its start is coherent.** It has one refresh for each declaration, with the value
of its initializer. -/
theorem coherent_of_start {t : SourceTree} (h : start E t = .ok s) :
    s.Coherent ∧ s.refreshes.map Refresh.name = t.states.names ∧
      ∀ i d, t.states.declarations[i]? = some d → ∃ r, s.refreshes[i]? = some r ∧
        r.name = d.name ∧
        E.evaluate? (Fields.ofList ((s.refreshes.take i).map fun r => (r.name, r.value)))
          d.initializer = some r.value := by
  obtain ⟨l, hl, hvalues, hcached, hs⟩ := exists_of_start h
  have hstate : s.state = Fields.ofList l := by rw [hs]
  have hrefreshes : s.refreshes = l.map fun f => ⟨f.1, f.2, s.placeholders f.1⟩ := by
    rw [hs]
    rfl
  refine ⟨⟨fun x => ?_, fun r hr => ?_, hcached⟩, ?_, fun i d hd => ?_⟩
  · rw [hstate, Fields.get?_ofList, lastRefresh?, hrefreshes, List.filter_map, List.getLast?_map,
      Option.map_map]
    rfl
  · rw [hrefreshes] at hr
    obtain ⟨f, -, rfl⟩ := List.mem_map.mp hr
    rfl
  · rw [hrefreshes, List.map_map, ← hl]
    rfl
  · obtain ⟨f, hf, heval⟩ := hvalues i d hd
    have hname : f.1 = d.name := by
      have := congrArg (·[i]?) hl
      simpa [StateTable.names, List.getElem?_map, hf, hd] using this
    refine ⟨⟨f.1, f.2, s.placeholders f.1⟩, ?_, hname, ?_⟩
    · rw [hrefreshes, List.getElem?_map, hf]
      rfl
    · rw [hrefreshes, ← List.map_take, List.map_map, ← heval]
      congr 2
      exact List.map_id _

/-! ### Every run -/

/-- **The refreshes of a page are the history of its state**, at every point of every run and with
every evaluator. Whatever is called, and whichever calls fail, the names of the state are those that
have been refreshed; the value of each is that of its last refresh; each refresh has the number of
placeholders of its name; and later calls only add refreshes. At the start there is one refresh for
each declared state, in the order of the first declarations, with the value to which its initializer
evaluates after those before it. -/
theorem refreshes_are_history {E : Evaluator} {src : Bytes} {s₀ : Store E}
    (h : start E (SourceTree.ofSource src) = .ok s₀) :
    (s₀.refreshes.map Refresh.name =
        (((Layout.ofSource src).filterMap Row.state?).map StateLine.name).eraseDups ∧
      ∀ i d, (SourceTree.ofSource src).states.declarations[i]? = some d →
        ∃ r, s₀.refreshes[i]? = some r ∧ r.name = d.name ∧
          E.evaluate? (Fields.ofList ((s₀.refreshes.take i).map fun r => (r.name, r.value)))
            d.initializer = some r.value) ∧
    ∀ cs : List (Call E), let s := s₀.performAll cs
      (∀ x, x ∈ s.state.map Prod.fst ↔ x ∈ s.refreshes.map Refresh.name) ∧
      (∀ x, Fields.get? x s.state = (s.lastRefresh? x).map Refresh.value) ∧
      (∀ r ∈ s.refreshes, r.placeholders = s.placeholders r.name) ∧
      ∀ ds, s.refreshes <+: (s₀.performAll (cs ++ ds)).refreshes := by
  obtain ⟨hcoherent, hnames, hvalues⟩ := coherent_of_start h
  refine ⟨⟨by rw [hnames, SourceTree.names_states], hvalues⟩, fun cs => ?_⟩
  have hs := hcoherent.steps (steps_performAll s₀ cs)
  refine ⟨hs.mem_names_iff, hs.value, hs.placeholders, fun ds => ?_⟩
  rw [performAll_append]
  exact (steps_performAll _ ds).isPrefix_refreshes

/-- A name that is not declared, and three calls that fail: there is no handler, the handler is left
to the browser, and the sum cannot be evaluated. -/
theorem refreshes_are_history_failing :
    let raw : Handler := ⟨⟨3, 1⟩, utf8 "click", ⟨.raw, utf8 "alert(1)"⟩, ⟨3, 1⟩⟩
    let sum : Handler :=
      ⟨⟨3, 1⟩, utf8 "click", ⟨.increment (utf8 "z") 1, utf8 "z.value += 1"⟩, ⟨3, 1⟩⟩
    let calls : List (Call evaluator) :=
      [.update (utf8 "z") .null, .dispatch 7 (utf8 "click"), .fire raw, .fire sum]
    ∃ s₀ : Store evaluator, start evaluator (SourceTree.ofSource (utf8 "state n = 1")) = .ok s₀ ∧
      s₀.refreshes.map Refresh.name = [utf8 "n"] ∧
      Fields.get? (utf8 "z") (s₀.performAll calls).state =
        ((s₀.performAll calls).lastRefresh? (utf8 "z")).map Refresh.value := by
  intro raw sum calls
  have hok : (start evaluator (SourceTree.ofSource (utf8 "state n = 1"))).isOk = true := by
    decide +kernel
  have hrows : ((Layout.ofSource (utf8 "state n = 1")).filterMap Row.state?).map StateLine.name =
      [utf8 "n"] := by decide +kernel
  cases hs : start evaluator (SourceTree.ofSource (utf8 "state n = 1")) with
  | error name => exact absurd hok (by simp [hs, Except.isOk, Except.toBool])
  | ok s₀ =>
    obtain ⟨⟨hnames, -⟩, hruns⟩ := refreshes_are_history hs
    obtain ⟨-, hvalue, -⟩ := hruns calls
    exact ⟨s₀, rfl, by rw [hnames, hrows]; rfl, hvalue (utf8 "z")⟩

end Store

end LiveMarkup

import LiveMarkup.Live.Debounce
import Mathlib.Data.List.Basic
import Mathlib.Data.List.Sublists

/-!
# Debouncing acts on the latest value only

What the loop of `LiveMarkup.Debounce.step` does is compared with the history of the events that it
has seen. Nothing is assumed about their order: timers expire whenever they like, also those of
values that were replaced long ago, and more than once.

* `LiveMarkup.Debounce.Waits` says by the history alone that a value waits for its timer: no other
  value has come since, and its timer has not expired since;
* `LiveMarkup.Debounce.tracks_run` is the invariant: the pending value of the loop is the one that
  waits, and its number counts the values that were received;
* `LiveMarkup.Debounce.call?_run_iff` says when an event makes the loop act, and on what;
* `LiveMarkup.Debounce.ordered_run` is about all actions together: they follow the order of the
  values, and none is repeated.

The loop with a clock is one of these runs (`LiveMarkup.Debounce.Timeline.exists_run_schedule`).
-/

namespace LiveMarkup

namespace Debounce

variable {α : Type}

/-! ### Histories -/

/-- The value that an event brings. -/
def Event.value? : Event α → Option α
  | .receive v => some v
  | _ => none

/-- The values that some events bring, in order. -/
def values (es : List (Event α)) : List α := es.filterMap Event.value?

@[simp] theorem values_nil : values ([] : List (Event α)) = [] := rfl

@[simp] theorem values_append (es fs : List (Event α)) :
    values (es ++ fs) = values es ++ values fs := List.filterMap_append

@[simp] theorem values_receive (v : α) (es : List (Event α)) :
    values (.receive v :: es) = v :: values es := rfl

@[simp] theorem values_expire (n : Nat) (es : List (Event α)) :
    values (.expire n :: es) = values es := rfl

theorem values_cons_of_none {e : Event α} (he : e.value? = none) (es : List (Event α)) :
    values (e :: es) = values es := List.filterMap_cons_none he

/-- **A value waits for its timer** after some events: it is the last one that they bring, `n`
counts the values up to it, and its timer has not expired since. -/
def Waits (es : List (Event α)) (n : Nat) (v : α) : Prop :=
  ∃ before after : List (Event α), es = before ++ .receive v :: after ∧ values after = [] ∧
    n = (values before).length + 1 ∧ .expire n ∉ after

theorem not_waits_nil (n : Nat) (v : α) : ¬ Waits [] n v := by
  rintro ⟨before, after, h, -⟩
  exact absurd h (by simp)

/-- A value that has just come is the one that waits. -/
theorem waits_receive_iff {es : List (Event α)} {w v : α} {n : Nat} :
    Waits (es ++ [.receive w]) n v ↔ n = (values es).length + 1 ∧ v = w := by
  constructor
  · rintro ⟨before, after, h, hafter, hn, -⟩
    rcases List.eq_nil_or_concat after with rfl | ⟨after, e, rfl⟩
    · obtain ⟨rfl, hv⟩ := List.append_inj' h rfl
      exact ⟨hn, by simpa using hv.symm⟩
    · -- Another value after the one that waits is excluded.
      rw [List.concat_eq_append, ← List.cons_append, ← List.append_assoc] at h
      obtain ⟨-, he⟩ := List.append_inj' h rfl
      rw [List.concat_eq_append, ← List.singleton_inj.mp he, values_append] at hafter
      exact absurd hafter (by simp)
  · rintro ⟨rfl, rfl⟩
    exact ⟨es, [], rfl, rfl, rfl, by simp⟩

/-- An event that brings no value changes what waits only if it is the expiry of its timer. -/
theorem waits_append_iff {es : List (Event α)} {e : Event α} (he : e.value? = none) {n : Nat}
    {v : α} : Waits (es ++ [e]) n v ↔ Waits es n v ∧ e ≠ .expire n := by
  constructor
  · rintro ⟨before, after, h, hafter, hn, hexpire⟩
    rcases List.eq_nil_or_concat after with rfl | ⟨after, f, rfl⟩
    · obtain ⟨-, hv⟩ := List.append_inj' h rfl
      rw [List.singleton_inj.mp hv] at he
      exact absurd he (by simp [Event.value?])
    · rw [List.concat_eq_append, ← List.cons_append, ← List.append_assoc] at h
      obtain ⟨rfl, hf⟩ := List.append_inj' h rfl
      obtain rfl := List.singleton_inj.mp hf
      rw [List.concat_eq_append, values_append] at hafter
      rw [List.concat_eq_append, List.mem_append, not_or, List.mem_singleton] at hexpire
      exact ⟨⟨before, after, rfl, (List.append_eq_nil_iff.mp hafter).1, hn, hexpire.1⟩,
        fun heq => hexpire.2 heq.symm⟩
  · rintro ⟨⟨before, after, rfl, hafter, hn, hexpire⟩, hne⟩
    refine ⟨before, after ++ [e], by simp, ?_, hn, ?_⟩
    · rw [values_append, hafter, values_cons_of_none he, List.nil_append, values_nil]
    · rw [List.mem_append, not_or, List.mem_singleton]
      exact ⟨hexpire, fun heq => hne heq.symm⟩

namespace Waits

variable {es : List (Event α)} {n : Nat} {v : α}

theorem values_eq (h : Waits es n v) :
    ∃ ws : List α, values es = ws ++ [v] ∧ n = ws.length + 1 := by
  obtain ⟨before, after, rfl, hafter, hn, -⟩ := h
  exact ⟨values before, by rw [values_append, values_receive, hafter], hn⟩

/-- **What waits is the last value.** -/
theorem getLast?_values (h : Waits es n v) : (values es).getLast? = some v := by
  obtain ⟨ws, hws, -⟩ := h.values_eq
  rw [hws, List.getLast?_concat]

/-- Its number counts the values. -/
theorem length_values (h : Waits es n v) : (values es).length = n := by
  obtain ⟨ws, hws, rfl⟩ := h.values_eq
  rw [hws, List.length_append, List.length_singleton]

end Waits

/-! ### One step -/

variable (act : Nat → α → Option Bytes)

/-- The value on which an event makes the loop act, with its number. -/
def call? (s : State α) : Event α → Option (Nat × α)
  | .expire k => if s.ending.isSome then none else s.pending.filter fun p => p.1 = k
  | _ => none

/-- **What a step can do** while the loop runs: it takes a value, acts on the pending one, passes
over a timer, or ends. -/
theorem step_cases {s : State α} (h : s.ending = none) (e : Event α) :
    (∃ v, e = .receive v ∧ call? s e = none ∧ step act s e =
      { s with received := s.received + 1, pending := some (s.received + 1, v) }) ∨
    (∃ n v, e = .expire n ∧ s.pending = some (n, v) ∧ call? s e = some (n, v) ∧ step act s e =
      { s with pending := none
               calls := s.calls ++ [(n, v)]
               ending := (act (s.calls.length + 1) v).map .failed }) ∨
    (∃ n, e = .expire n ∧ (∀ v, s.pending ≠ some (n, v)) ∧ call? s e = none ∧ step act s e = s) ∨
    (e = .close ∧ call? s e = none ∧ step act s e = { s with ending := some .closed }) ∨
    (∃ reason, e = .cancel reason ∧ call? s e = none ∧
      step act s e = { s with ending := some (.cancelled reason) }) := by
  rw [step.eq_def, h]
  cases e with
  | receive v => exact Or.inl ⟨v, rfl, rfl, rfl⟩
  | close => exact Or.inr (Or.inr (Or.inr (Or.inl ⟨rfl, rfl, rfl⟩)))
  | cancel reason => exact Or.inr (Or.inr (Or.inr (Or.inr ⟨reason, rfl, rfl, rfl⟩)))
  | expire k =>
    rw [call?, h]
    cases hp : s.pending with
    | none => exact Or.inr (Or.inr (Or.inl ⟨k, rfl, by simp, rfl, rfl⟩))
    | some p =>
      obtain ⟨n, v⟩ := p
      by_cases hk : k = n
      · subst hk
        exact Or.inr (Or.inl ⟨k, v, rfl, rfl, by simp, by simp⟩)
      · refine Or.inr (Or.inr (Or.inl ⟨k, rfl, fun w hw => hk ?_, ?_, by simp [hk]⟩))
        · simp only [Option.some.injEq, Prod.mk.injEq] at hw
          exact hw.1.symm
        · simp [Option.filter, Ne.symm hk]

/-- A loop that has ended does nothing. -/
theorem step_of_ending {s : State α} (h : s.ending ≠ none) (e : Event α) : step act s e = s := by
  obtain ⟨r, hr⟩ := Option.ne_none_iff_exists'.mp h
  rw [step.eq_def, hr]

theorem call?_of_ending {s : State α} (h : s.ending ≠ none) (e : Event α) : call? s e = none := by
  cases e with
  | expire k => rw [call?, if_pos (Option.isSome_iff_ne_none.mpr h)]
  | _ => rfl

/-- **A step acts on what `call?` gives**, and on nothing else. -/
theorem calls_step (s : State α) (e : Event α) :
    (step act s e).calls = s.calls ++ (call? s e).toList := by
  by_cases h : s.ending = none
  · obtain ⟨v, -, hc, hs⟩ | ⟨n, v, -, -, hc, hs⟩ | ⟨n, -, -, hc, hs⟩ | ⟨-, hc, hs⟩ |
        ⟨reason, -, hc, hs⟩ := step_cases act h e
    all_goals
      rw [hc, hs]
      simp
  · rw [step_of_ending act h, call?_of_ending h]
    simp

/-- A step that acts is known from what it acts on. -/
theorem step_of_call? {s : State α} {e : Event α} {n : Nat} {v : α}
    (h : call? s e = some (n, v)) :
    s.ending = none ∧ s.pending = some (n, v) ∧ step act s e =
      { s with pending := none
               calls := s.calls ++ [(n, v)]
               ending := (act (s.calls.length + 1) v).map .failed } := by
  have hs : s.ending = none := by
    by_contra hne
    rw [call?_of_ending hne] at h
    cases h
  obtain ⟨w, -, hc, -⟩ | ⟨k, w, -, hp, hc, hstep⟩ | ⟨k, -, -, hc, -⟩ | ⟨-, hc, -⟩ |
    ⟨reason, -, hc, -⟩ := step_cases act hs e
  · cases hc.symm.trans h
  · cases hc.symm.trans h
    exact ⟨hs, hp, hstep⟩
  · cases hc.symm.trans h
  · cases hc.symm.trans h
  · cases hc.symm.trans h

/-- Only a value that comes can wait. -/
theorem pending_step_of_none {s : State α} (h : s.pending = none) {e : Event α}
    (he : e.value? = none) : (step act s e).pending = none := by
  by_cases hs : s.ending = none
  · obtain ⟨v, rfl, -⟩ | ⟨n, v, -, -, -, hstep⟩ | ⟨n, -, -, -, hstep⟩ | ⟨-, -, hstep⟩ |
      ⟨reason, -, -, hstep⟩ := step_cases act hs e
    · cases he
    all_goals rw [hstep]
    all_goals exact h
  · rw [step_of_ending act hs, h]

/-- A step asks for the result of an action only if it acts. -/
theorem step_congr {act' : Nat → α → Option Bytes} {s : State α} {e : Event α}
    (h : ∀ n v, call? s e = some (n, v) →
      act' (s.calls.length + 1) v = act (s.calls.length + 1) v) :
    step act' s e = step act s e := by
  cases hcall : call? s e with
  | some c =>
    obtain ⟨n, v⟩ := c
    rw [(step_of_call? act' hcall).2.2, (step_of_call? act hcall).2.2, h n v hcall]
  | none =>
    by_cases hs : s.ending = none
    swap
    · rw [step_of_ending act hs, step_of_ending act' hs]
    cases e with
    | expire n =>
      -- A timer that makes the loop act on nothing does nothing.
      have hidle (f : Nat → α → Option Bytes) : step f s (.expire n) = s := by
        obtain ⟨v, he, -⟩ | ⟨k, v, -, -, hc, -⟩ | ⟨k, -, -, -, hstep⟩ | ⟨he, -⟩ | ⟨reason, he, -⟩ :=
          step_cases f hs (.expire n)
        · cases he
        · cases hc.symm.trans hcall
        · exact hstep
        · cases he
        · cases he
      rw [hidle act, hidle act']
    | _ => rw [step.eq_def, step.eq_def]

/-! ### Whole runs -/

theorem run_append (s : State α) (es fs : List (Event α)) :
    run act s (es ++ fs) = run act (run act s es) fs := List.foldl_append

theorem run_concat (s : State α) (es : List (Event α)) (e : Event α) :
    run act s (es ++ [e]) = step act (run act s es) e := run_append act s es [e]

theorem run_of_ending {s : State α} (h : s.ending ≠ none) (es : List (Event α)) :
    run act s es = s := by
  induction es with
  | nil => rfl
  | cons e es ih => rw [run, List.foldl_cons, step_of_ending act h, ← run, ih]

/-- Actions are not taken back. -/
theorem mem_calls_of_mem {s : State α} {c : Nat × α} (es : List (Event α)) (hc : c ∈ s.calls) :
    c ∈ (run act s es).calls := by
  induction es generalizing s with
  | nil => exact hc
  | cons e es ih =>
    refine ih ?_
    rw [calls_step]
    exact List.mem_append_left _ hc

/-- The events that the loop sees: those up to its end. -/
def seen (s : State α) : List (Event α) → List (Event α)
  | [] => []
  | e :: es => if s.ending.isSome then [] else e :: seen (step act s e) es

theorem seen_append (s : State α) (es fs : List (Event α)) :
    seen act s (es ++ fs) = seen act s es ++ seen act (run act s es) fs := by
  induction es generalizing s with
  | nil => rfl
  | cons e es ih =>
    rw [List.cons_append, seen, seen]
    by_cases h : s.ending = none
    · rw [if_neg (by simp [h]), if_neg (by simp [h]), ih, List.cons_append]
      rfl
    · have hsome : s.ending.isSome := Option.isSome_iff_ne_none.mpr h
      rw [if_pos hsome, if_pos hsome, run_of_ending act h, List.nil_append]
      cases fs with
      | nil => rfl
      | cons f fs => rw [seen, if_pos hsome]

/-- A loop that runs has seen everything. -/
theorem seen_of_running {s : State α} {es : List (Event α)} (h : (run act s es).ending = none) :
    seen act s es = es := by
  induction es generalizing s with
  | nil => rfl
  | cons e es ih =>
    have hs : s.ending = none := by
      by_contra hne
      rw [run_of_ending act hne] at h
      exact hne h
    rw [seen, if_neg (by simp [hs]), ih h]

/-- **A run depends on the results of its actions only.** -/
theorem run_congr {act' : Nat → α → Option Bytes} {es : List (Event α)}
    (h : ∀ k v, k ≤ (run act {} es).calls.length → act' k v = act k v) :
    run act' {} es = run act {} es ∧ seen act' {} es = seen act {} es := by
  induction es using List.reverseRecOn with
  | nil => exact ⟨rfl, rfl⟩
  | append_singleton es e ih =>
    rw [run_concat, calls_step, List.length_append] at h
    obtain ⟨hrun, hseen⟩ := ih fun k v hk => h k v (by omega)
    constructor
    · rw [run_concat, run_concat, hrun]
      refine step_congr act fun n v hcall => h _ v ?_
      rw [hcall, Option.toList_some, List.length_singleton]
    · rw [seen_append, seen_append, hrun, hseen, seen, seen]
      rfl

/-! ### The invariant -/

/-- The state of a running loop says what has happened: how many values have come, and which one
waits. -/
structure Tracks (es : List (Event α)) (s : State α) : Prop where
  received : s.received = (values es).length
  pending : ∀ n v, s.pending = some (n, v) ↔ Waits es n v

/-- **One step keeps the invariant**, unless it ends the loop. -/
theorem Tracks.step {es : List (Event α)} {s : State α} (h : Tracks es s) (hs : s.ending = none)
    (e : Event α) (hnext : (Debounce.step act s e).ending = none) :
    Tracks (es ++ [e]) (Debounce.step act s e) := by
  obtain ⟨v, rfl, -, hstep⟩ | ⟨n, v, rfl, hp, -, hstep⟩ | ⟨n, rfl, hp, -, hstep⟩ | ⟨-, -, hstep⟩ |
    ⟨reason, -, -, hstep⟩ := step_cases act hs e
  · -- A value has come: it waits from now on, and it alone.
    rw [hstep]
    refine ⟨by simp [h.received], fun k w => ?_⟩
    rw [waits_receive_iff, ← h.received]
    simp [eq_comm]
  · -- The timer of the pending value has expired, so that nothing waits any more.
    rw [hstep]
    refine ⟨by simp [h.received], fun k w => ?_⟩
    rw [waits_append_iff rfl]
    refine iff_of_false (by simp) fun hw => hw.2 ?_
    have hk : s.pending = some (k, w) := (h.pending k w).mpr hw.1
    rw [hp] at hk
    rw [(Prod.mk.inj (Option.some.inj hk)).1]
  · -- The timer of a value that was replaced is not the one of the value that waits.
    rw [hstep]
    refine ⟨by simp [h.received], fun k w => ?_⟩
    rw [waits_append_iff rfl, ← h.pending]
    constructor
    · intro hk
      refine ⟨hk, fun heq => ?_⟩
      obtain rfl := Event.expire.inj heq
      exact hp w hk
    · exact And.left
  · -- The other events end the loop.
    rw [hstep] at hnext
    exact absurd hnext (by simp)
  · rw [hstep] at hnext
    exact absurd hnext (by simp)

theorem run_of_prefix {s : State α} {es fs : List (Event α)}
    (h : (run act s (es ++ fs)).ending = none) : (run act s es).ending = none := by
  by_contra hne
  rw [run_append, run_of_ending act hne] at h
  exact hne h

/-- **The invariant holds as long as the loop runs.** -/
theorem tracks_run {es : List (Event α)} (h : (run act {} es).ending = none) :
    Tracks es (run act {} es) := by
  induction es using List.reverseRecOn with
  | nil =>
    refine ⟨rfl, fun n v => iff_of_false ?_ (not_waits_nil n v)⟩
    exact fun hp => nomatch hp
  | append_singleton es e ih =>
    have hes := run_of_prefix act h
    rw [run_concat] at h ⊢
    exact (ih hes).step act hes e h

/-- **When the loop acts, and on what**: it has not ended, and the timer expires of the value that
waits. -/
theorem call?_run_iff {es : List (Event α)} {e : Event α} {n : Nat} {v : α} :
    call? (run act {} es) e = some (n, v) ↔
      (run act {} es).ending = none ∧ e = .expire n ∧ Waits es n v := by
  by_cases hs : (run act {} es).ending = none
  · have htracks := tracks_run act hs
    obtain ⟨w, rfl, hc, -⟩ | ⟨k, w, rfl, hp, hc, -⟩ | ⟨k, rfl, hp, hc, -⟩ | ⟨rfl, hc, -⟩ |
      ⟨reason, rfl, hc, -⟩ := step_cases act hs e
    · simp [hc]
    · rw [hc, ← htracks.pending, hp]
      simp only [Option.some.injEq, Prod.mk.injEq, Event.expire.injEq]
      exact ⟨fun h => ⟨hs, h.1, h⟩, fun h => h.2.2⟩
    · rw [hc, ← htracks.pending]
      refine iff_of_false (by simp) fun h => ?_
      obtain rfl := Event.expire.inj h.2.1
      exact hp v h.2.2
    · simp [hc]
    · simp [hc]
  · rw [call?_of_ending hs]
    exact iff_of_false (by simp) fun h => hs h.1

/-! ### All actions together -/

/-- The numbers of a state are in order: those of the actions increase, and the pending value, which
is the last one received, comes after all of them. -/
structure Ordered (s : State α) : Prop where
  increasing : (s.calls.map Prod.fst).Pairwise (· < ·)
  received : ∀ c ∈ s.calls, c.1 ≤ s.received
  pending : ∀ n v, s.pending = some (n, v) → n = s.received ∧ ∀ c ∈ s.calls, c.1 < n

theorem Ordered.step {s : State α} (h : Ordered s) (e : Event α) :
    Ordered (Debounce.step act s e) := by
  by_cases hs : s.ending = none
  swap
  · rwa [step_of_ending act hs]
  obtain ⟨v, -, -, hstep⟩ | ⟨n, v, -, hp, -, hstep⟩ | ⟨n, -, -, -, hstep⟩ | ⟨-, -, hstep⟩ |
    ⟨reason, -, -, hstep⟩ := step_cases act hs e
  · rw [hstep]
    -- The next number is larger than all others.
    refine ⟨h.increasing, fun c hc => Nat.le_succ_of_le (h.received c hc), fun k w hk => ?_⟩
    obtain ⟨rfl, rfl⟩ := Prod.mk.inj (Option.some.inj hk)
    exact ⟨rfl, fun c hc => Nat.lt_succ_of_le (h.received c hc)⟩
  · -- The pending value comes after all values that were acted on.
    obtain ⟨hn, hlt⟩ := h.pending n v hp
    rw [hstep]
    refine ⟨?_, fun c hc => ?_, fun k w hk => nomatch hk⟩
    · rw [List.map_append, List.pairwise_append]
      refine ⟨h.increasing, by simp, fun a ha b hb => ?_⟩
      obtain ⟨c, hc, rfl⟩ := List.mem_map.mp ha
      rw [List.map_singleton, List.mem_singleton] at hb
      exact hb ▸ hlt c hc
    · rcases List.mem_append.mp hc with hc | hc
      · exact h.received c hc
      · rw [List.mem_singleton.mp hc]
        exact hn.le
  · rwa [hstep]
  · rw [hstep]
    exact ⟨h.increasing, h.received, h.pending⟩
  · rw [hstep]
    exact ⟨h.increasing, h.received, h.pending⟩

/-- **The loop acts on values in the order in which they came**, and on none of them twice. -/
theorem ordered_run (es : List (Event α)) : Ordered (run act {} es) := by
  induction es using List.reverseRecOn with
  | nil =>
    exact ⟨List.Pairwise.nil, fun c hc => absurd hc (by simp [run]), fun n v hp => nomatch hp⟩
  | append_singleton es e ih =>
    rw [run_concat]
    exact ih.step act e

/-- **Every action is on the value with its number.** -/
theorem getElem?_values_of_mem_calls {es : List (Event α)} {c : Nat × α}
    (hc : c ∈ (run act {} es).calls) :
    0 < c.1 ∧ (values (seen act {} es))[c.1 - 1]? = some c.2 := by
  induction es using List.reverseRecOn with
  | nil => exact absurd hc (by simp [run])
  | append_singleton es e ih =>
    rw [run_concat, calls_step, List.mem_append] at hc
    rw [seen_append, values_append]
    rcases hc with hc | hc
    · obtain ⟨hpos, hget⟩ := ih hc
      obtain ⟨hlt, -⟩ := List.getElem?_eq_some_iff.mp hget
      exact ⟨hpos, by rw [List.getElem?_append_left hlt, hget]⟩
    · -- The action is on the value that waits, which is the last one.
      obtain ⟨n, v⟩ := c
      obtain ⟨hs, -, hwaits⟩ := (call?_run_iff act).mp (Option.mem_toList.mp hc)
      obtain ⟨ws, hws, rfl⟩ := hwaits.values_eq
      rw [seen_of_running act hs, hws]
      exact ⟨Nat.succ_pos _, by simp⟩

/-- **Which actions there are**, by the history alone: one for each expiry of the timer of a value
that waits, as long as the loop runs. -/
theorem mem_calls_iff {es : List (Event α)} {c : Nat × α} :
    c ∈ (run act {} es).calls ↔ ∃ before after : List (Event α),
      es = before ++ .expire c.1 :: after ∧ (run act {} before).ending = none ∧
        Waits before c.1 c.2 := by
  constructor
  · intro hc
    induction es using List.reverseRecOn with
    | nil => exact absurd hc (by simp [run])
    | append_singleton es e ih =>
      rw [run_concat, calls_step, List.mem_append] at hc
      rcases hc with hc | hc
      · obtain ⟨before, after, rfl, hrest⟩ := ih hc
        exact ⟨before, after ++ [e], by simp, hrest⟩
      · obtain ⟨hs, rfl, hwaits⟩ :=
          (call?_run_iff act (n := c.1) (v := c.2)).mp (Option.mem_toList.mp hc)
        exact ⟨es, [], rfl, hs, hwaits⟩
  · rintro ⟨before, after, rfl, hs, hwaits⟩
    have hmem : c ∈ (run act {} (before ++ [.expire c.1])).calls := by
      rw [run_concat, calls_step, (call?_run_iff act).mpr ⟨hs, rfl, hwaits⟩]
      simp
    rw [List.append_cons, run_append]
    exact mem_calls_of_mem act after hmem

/-- **The actions are on a subsequence of the values.** -/
theorem calls_sublist (es : List (Event α)) :
    ((run act {} es).calls.map Prod.snd).Sublist (values (seen act {} es)) := by
  generalize hvs : values (seen act {} es) = vs
  have hget : ∀ c ∈ (run act {} es).calls, 0 < c.1 ∧ vs[c.1 - 1]? = some c.2 := fun c hc =>
    hvs ▸ getElem?_values_of_mem_calls act hc
  have hincreasing := (ordered_run act es).increasing
  generalize (run act {} es).calls = calls at hget hincreasing
  -- Numbers count from one and indexes from zero.
  let indexes : List (Fin vs.length) := calls.attach.map fun c =>
    ⟨c.1.1 - 1, (List.getElem?_eq_some_iff.mp (hget c.1 c.2).2).1⟩
  have hmap : calls.map Prod.snd = indexes.map (vs[·]) := by
    rw [List.map_map, ← List.attach_map_val (f := Prod.snd)]
    refine List.map_congr_left fun c _ => ?_
    obtain ⟨hlt, hval⟩ := List.getElem?_eq_some_iff.mp (hget c.1 c.2).2
    exact hval.symm
  rw [hmap]
  refine List.map_getElem_sublist (List.pairwise_map.mpr ?_)
  rw [List.pairwise_map, ← List.attach_map_subtype_val calls, List.pairwise_map] at hincreasing
  refine hincreasing.imp fun {c d} hlt => ?_
  have hc := (hget c.1 c.2).1
  rw [Fin.mk_lt_mk]
  omega

/-! ### The end of a run -/

/-- How an event ends a loop after others: the input ends, the loop is cancelled, or an action on
the value that waits fails. -/
def Ends (es : List (Event α)) (e : Event α) (r : Ending) : Prop :=
  (e = .close ∧ r = .closed) ∨ (∃ reason, e = .cancel reason ∧ r = .cancelled reason) ∨
    ∃ (n : Nat) (v : α) (reason : Bytes), e = .expire n ∧ Waits es n v ∧
      act ((run act {} es).calls.length + 1) v = some reason ∧ r = .failed reason

/-- **Which event ends a running loop, and how.** -/
theorem ending_concat_iff {es : List (Event α)} (h : (run act {} es).ending = none) {e : Event α}
    {r : Ending} : (run act {} (es ++ [e])).ending = some r ↔ Ends act es e r := by
  have htracks := tracks_run act h
  rw [run_concat, Ends]
  obtain ⟨v, rfl, -, hstep⟩ | ⟨n, v, rfl, hp, -, hstep⟩ | ⟨n, rfl, hp, -, hstep⟩ | ⟨rfl, -, hstep⟩ |
    ⟨reason, rfl, -, hstep⟩ := step_cases act h e
  · rw [hstep]
    simp [h]
  · -- The timer of the value that waits: the loop ends with the error of the action, if it has one.
    have hwaits := (htracks.pending n v).mp hp
    rw [hstep]
    simp only [Option.map_eq_some_iff, reduceCtorEq, false_and, exists_false, false_or,
      Event.expire.injEq]
    constructor
    · rintro ⟨reason, hreason, rfl⟩
      exact ⟨n, v, reason, rfl, hwaits, hreason, rfl⟩
    · rintro ⟨k, w, reason, rfl, hw, hreason, rfl⟩
      have hpw := (htracks.pending n w).mpr hw
      rw [hp, Option.some.injEq, Prod.mk.injEq] at hpw
      exact ⟨reason, hpw.2 ▸ hreason, rfl⟩
  · -- Any other timer does nothing.
    rw [hstep, h]
    refine iff_of_false (by simp) ?_
    rintro (⟨h, -⟩ | ⟨reason, h, -⟩ | ⟨k, w, reason, hk, hw, -⟩)
    · cases h
    · cases h
    · obtain rfl := Event.expire.inj hk
      exact hp w ((htracks.pending n w).mpr hw)
  · rw [hstep]
    simp [eq_comm]
  · rw [hstep]
    simp [eq_comm]

/-- **A loop that has ended was ended by one event**, and saw nothing after it. -/
theorem ending_run_iff {es : List (Event α)} {r : Ending} :
    (run act {} es).ending = some r ↔ ∃ (before : List (Event α)) (e : Event α)
      (after : List (Event α)), es = before ++ e :: after ∧ (run act {} before).ending = none ∧
        Ends act before e r := by
  constructor
  · intro h
    induction es using List.reverseRecOn with
    | nil => exact absurd h (by simp [run])
    | append_singleton es e ih =>
      by_cases hes : (run act {} es).ending = none
      · exact ⟨es, e, [], rfl, hes, (ending_concat_iff act hes).mp h⟩
      · rw [run_concat, step_of_ending act hes] at h
        obtain ⟨before, f, after, rfl, hbefore, hends⟩ := ih h
        exact ⟨before, f, after ++ [e], by simp, hbefore, hends⟩
  · rintro ⟨before, e, after, rfl, hbefore, hends⟩
    have hended := (ending_concat_iff act hbefore).mpr hends
    rw [List.append_cons, run_append, run_of_ending act (by simp [hended]), hended]

/-- A loop that has seen the end of its input or a cancellation has ended, by it or before. -/
theorem ending_ne_none_of_mem {es : List (Event α)}
    (h : .close ∈ es ∨ ∃ reason, .cancel reason ∈ es) : (run act {} es).ending ≠ none := by
  intro hnone
  have hends {e : Event α} {r : Ending} (he : e ∈ es) (hr : ∀ before, Ends act before e r) :
      False := by
    obtain ⟨before, after, rfl⟩ := List.append_of_mem he
    have hbefore := run_of_prefix act hnone
    rw [(ending_run_iff act).mpr ⟨before, e, after, rfl, hbefore, hr before⟩] at hnone
    exact absurd hnone (by simp)
  rcases h with h | ⟨reason, h⟩
  · exact hends h fun _ => Or.inl ⟨rfl, rfl⟩
  · exact hends h fun _ => Or.inr (Or.inl ⟨reason, rfl, rfl⟩)

/-- **A failing action ends the loop** with its error. -/
theorem ending_of_failing {es : List (Event α)} {i : Nat} {c : Nat × α}
    (hc : (run act {} es).calls[i]? = some c) {reason : Bytes}
    (hact : act (i + 1) c.2 = some reason) :
    (run act {} es).ending = some (.failed reason) := by
  induction es using List.reverseRecOn with
  | nil => exact absurd hc (by simp [run])
  | append_singleton es e ih =>
    by_cases hs : (run act {} es).ending = none
    swap
    · rw [run_concat, step_of_ending act hs] at hc ⊢
      exact ih hc
    rw [run_concat, calls_step] at hc
    rcases Nat.lt_or_ge i (run act {} es).calls.length with hlt | hge
    · -- An action before the last one has not failed, since the loop went on.
      rw [List.getElem?_append_left hlt] at hc
      rw [ih hc] at hs
      exact absurd hs (by simp)
    · rw [List.getElem?_append_right hge] at hc
      have hmem : c ∈ (call? (run act {} es) e).toList := List.mem_of_getElem? hc
      have hcall : call? (run act {} es) e = some (c.1, c.2) := Option.mem_toList.mp hmem
      have hi : i = (run act {} es).calls.length := by
        rw [hcall, Option.toList_some, List.getElem?_singleton] at hc
        split at hc
        · omega
        · cases hc
      obtain ⟨-, rfl, hwaits⟩ := (call?_run_iff act).mp hcall
      exact (ending_concat_iff act hs).mpr
        (Or.inr (Or.inr ⟨c.1, c.2, reason, rfl, hwaits, hi ▸ hact, rfl⟩))

/-- **A value that was replaced in time is never acted on**: another one came before its timer
expired. -/
theorem replaced_notMem_calls {before between after : List (Event α)} {v w : α}
    (h : .expire ((values before).length + 1) ∉ between) :
    (values before).length + 1 ∉
      (run act {} (before ++ .receive v :: (between ++ .receive w :: after))).calls.map
        Prod.fst := by
  intro hmem
  obtain ⟨c, hc, hn⟩ := List.mem_map.mp hmem
  obtain ⟨pre, post, hsplit, -, hwaits⟩ := (mem_calls_iff act).mp hc
  have hlength := hwaits.length_values
  rw [hn] at hsplit hlength
  -- The timer expires after the value has come, and not before the other one has.
  rcases List.append_eq_append_iff.mp hsplit with ⟨x, rfl, hx⟩ | ⟨x, rfl, -⟩
  · rcases x with - | ⟨y, x⟩
    · cases hx
    · obtain ⟨rfl, hrest⟩ := List.cons.inj hx
      rcases List.append_eq_append_iff.mp hrest with ⟨y, rfl, hy⟩ | ⟨y, rfl, hy⟩
      · rcases y with - | ⟨z, y⟩
        · cases hy
        · obtain ⟨rfl, -⟩ := List.cons.inj hy
          simp only [values_append, values_receive, List.length_append, List.length_cons] at hlength
          omega
      · rcases y with - | ⟨z, y⟩
        · cases hy
        · obtain ⟨rfl, -⟩ := List.cons.inj hy
          exact h (List.mem_append_right x List.mem_cons_self)
  · rw [values_append, List.length_append] at hlength
    omega

/-- The timer of a value that was replaced has no effect. -/
theorem run_concat_of_replaced {es : List (Event α)} {n : Nat} (h : n < (values es).length) :
    run act {} (es ++ [.expire n]) = run act {} es := by
  rw [run_concat]
  by_cases hs : (run act {} es).ending = none
  · obtain ⟨v, hv, -⟩ | ⟨k, v, hk, hp, -⟩ | ⟨k, -, -, -, hstep⟩ | ⟨hk, -⟩ | ⟨reason, hk, -⟩ :=
      step_cases act hs (.expire n)
    · cases hv
    · obtain rfl := Event.expire.inj hk
      have hwaits := ((tracks_run act hs).pending n v).mp hp
      exact absurd hwaits.length_values h.ne'
    · exact hstep
    · cases hk
    · cases hk
  · exact step_of_ending act hs _

/-! ### The loop with a clock -/

/-- The value that a step of a sender brings. -/
def Command.value? : Command → Option Bytes
  | .send v => some v
  | _ => none

/-- The values of the steps that were received. -/
def delivered (cs : List (Int × Command)) (fates : List (Int × Fate)) : List Bytes :=
  (cs.zip fates).filterMap fun y => if y.2.2 = .sent then y.1.2.value? else none

namespace Timeline

variable (act : Nat → Bytes → Option Bytes) (timing : Timing)

/-- **Waiting is nothing else than the expiry of the timer**, if it is due by then. -/
theorem wait_cases (time : Int) (t : Timeline) :
    (wait act timing time t).state = t.state ∧ (wait act timing time t).calls = t.calls ∨
    ∃ (n : Nat) (v : Bytes), t.state.ending = none ∧ t.state.pending = some (n, v) ∧
      (wait act timing time t).state = step act t.state (.expire n) ∧
      (wait act timing time t).calls = t.calls ++ [(t.due, v)] := by
  rw [wait, advance.eq_def]
  dsimp only
  split
  · rename_i n v hending hpending
    split
    · exact Or.inr ⟨n, v, hending, hpending, rfl, rfl⟩
    · exact Or.inl ⟨rfl, rfl⟩
  · exact Or.inl ⟨rfl, rfl⟩

/-- A timeline whose loop has seen some events. -/
structure Plays (t : Timeline) (es : List (Event Bytes)) : Prop where
  state : t.state = run act {} es
  calls : t.calls.map Prod.snd = (run act {} es).calls.map Prod.snd

variable {act} {t : Timeline} {es : List (Event Bytes)}

theorem Plays.wait (h : Plays act t es) (time : Int) :
    ∃ fs : List (Event Bytes), Plays act (Timeline.wait act timing time t) (es ++ fs) ∧
      values fs = [] := by
  obtain ⟨hstate, hcalls⟩ | ⟨n, v, hending, hpending, hstate, hcalls⟩ :=
    wait_cases act timing time t
  · exact ⟨[], ⟨by rw [hstate, h.state, List.append_nil], by rw [hcalls, h.calls, List.append_nil]⟩,
      rfl⟩
  · have hcall : call? (run act {} es) (.expire n) = some (n, v) := by
      rw [← h.state, call?, hending, hpending]
      simp
    refine ⟨[.expire n], ⟨by rw [hstate, h.state, run_concat], ?_⟩, rfl⟩
    rw [hcalls, run_concat, calls_step, hcall, List.map_append, h.calls, List.map_append]
    rfl

/-- What is sent is received, unless the loop has ended. -/
theorem Plays.send (h : Plays act t es) (time : Int) (v : Bytes) :
    ∃ fs : List (Event Bytes), Plays act (t.send act timing time v) (es ++ fs) ∧
      values fs = if (t.send act timing time v).isOver then [] else [v] := by
  obtain ⟨fs, hplays, hfs⟩ := h.wait timing time
  rw [Timeline.send]
  dsimp only
  split
  · rename_i hover
    exact ⟨fs, ⟨hplays.state, hplays.calls⟩, hfs.trans (if_pos hover).symm⟩
  · rename_i hover
    have hending : (Timeline.wait act timing time t).state.ending = none := by
      rwa [isOver, Bool.not_eq_true, Option.isSome_eq_false_iff, Option.isNone_iff_eq_none] at hover
    obtain ⟨w, hw, hcall, hstep⟩ | ⟨n, w, hw, -⟩ | ⟨n, hw, -⟩ | ⟨hw, -⟩ | ⟨reason, hw, -⟩ :=
      step_cases act hending (.receive v)
    · refine ⟨fs ++ [.receive v], ⟨?_, ?_⟩, ?_⟩
      · rw [hplays.state, ← List.append_assoc, run_concat]
      · rw [hplays.calls, ← List.append_assoc, run_concat, calls_step]
        simp [call?]
      · rw [values_append, hfs, isOver, hstep, if_neg (by simp [hending])]
        rfl
    all_goals cases hw

theorem Plays.stop (h : Plays act t es) (time : Int) {e : Event Bytes}
    (he : e = .close ∨ ∃ reason, e = .cancel reason) :
    ∃ fs : List (Event Bytes), Plays act (t.stop act timing time e) (es ++ fs) ∧
      values fs = [] := by
  obtain ⟨fs, hplays, hfs⟩ := h.wait timing time
  rw [Timeline.stop]
  split
  · exact ⟨fs, hplays, hfs⟩
  · refine ⟨fs ++ [e], ⟨?_, ?_⟩, ?_⟩
    · rw [hplays.state, ← List.append_assoc, run_concat]
    · rw [hplays.calls, ← List.append_assoc, run_concat, calls_step]
      rcases he with rfl | ⟨reason, rfl⟩ <;> simp [call?]
    · rw [values_append, hfs]
      rcases he with rfl | ⟨reason, rfl⟩ <;> rfl

theorem Plays.perform (h : Plays act t es) (time : Int) (c : Command) :
    ∃ fs : List (Event Bytes), Plays act (Debounce.perform act timing t time c).1 (es ++ fs) ∧
      values fs =
        if (Debounce.perform act timing t time c).2 = .sent then c.value?.toList else [] := by
  cases c with
  | send v =>
    obtain ⟨fs, hplays, hfs⟩ := h.send timing time v
    refine ⟨fs, hplays, ?_⟩
    rw [hfs, Debounce.perform]
    dsimp only
    cases (t.send act timing time v).isOver <;> rfl
  | close => exact h.stop timing time (Or.inl rfl)
  | cancel => exact h.stop timing time (Or.inr ⟨stopReason, rfl⟩)

theorem Plays.performAll (h : Plays act t es) (cs : List (Int × Command)) :
    ∃ fs : List (Event Bytes), Plays act (Debounce.performAll act timing t cs).1 (es ++ fs) ∧
      values fs = delivered cs (Debounce.performAll act timing t cs).2 := by
  induction cs generalizing t es with
  | nil => exact ⟨[], by rwa [List.append_nil], rfl⟩
  | cons c cs ih =>
    obtain ⟨time, c⟩ := c
    obtain ⟨fs, hplays, hfs⟩ := h.perform timing time c
    obtain ⟨gs, hplays', hgs⟩ := ih hplays
    refine ⟨fs ++ gs, by rwa [← List.append_assoc], ?_⟩
    rw [values_append, hfs, hgs, Debounce.performAll, delivered, delivered, List.zip_cons_cons,
      List.filterMap_cons]
    dsimp only
    split
    · -- Only a value that was received is delivered.
      cases c.value? <;> rfl
    · rfl

/-- **A schedule is a run of the loop** over the values that were sent. -/
theorem exists_run_schedule (act : Nat → Bytes → Option Bytes) (timing : Timing)
    (cs : List (Int × Command)) :
    ∃ es : List (Event Bytes), Plays act (schedule act timing cs).1 es ∧
      values es = delivered cs (schedule act timing cs).2 := by
  have hstart : Plays act {} [] := ⟨rfl, rfl⟩
  obtain ⟨es, hplays, hes⟩ := hstart.performAll timing cs
  rw [schedule]
  split
  · exact ⟨es, hplays, hes⟩
  · obtain ⟨fs, hplays', hfs⟩ := hplays.stop timing
      ((Debounce.performAll act timing {} cs).1.now + patience) (Or.inl rfl)
    exact ⟨es ++ fs, hplays', by rw [values_append, hfs, List.append_nil, hes]⟩

end Timeline

/-- **The loop acts on the latest value only**, whatever the order of the events is and whatever its
actions return.

An event makes the loop act exactly if the loop has not ended and the event is the expiry of the
timer of the value that waits; this is the last value that has come, and the loop acts on it. So all
actions together are on a subsequence of the values that it has received, in order and on none of
them twice; a value that was replaced before its timer expired is never acted on, and its timer has
no effect any more. Once the loop has seen the end of its input or a cancellation, or an action has
failed, nothing happens any more; and what it returns is nothing, the reason of the cancellation or
the error of the action. With a clock, the loop makes one of these runs, over the values that were
sent to it. -/
theorem latest_value_acted_on (act : Nat → Bytes → Option Bytes) :
    (∀ (es : List (Event Bytes)) (e : Event Bytes), ∃ call : Option (Nat × Bytes),
      (run act {} (es ++ [e])).calls = (run act {} es).calls ++ call.toList ∧
      ∀ n v, (call = some (n, v) ↔
          (run act {} es).ending = none ∧ e = .expire n ∧ Waits es n v) ∧
        (call = some (n, v) → (values es).getLast? = some v ∧ (values es).length = n)) ∧
    (∀ (es : List (Event Bytes)) (n : Nat), n < (values es).length →
      run act {} (es ++ [.expire n]) = run act {} es) ∧
    (∀ es : List (Event Bytes), let s := run act {} es
      let received := values (seen act {} es)
      (s.calls.map Prod.fst).Pairwise (· < ·) ∧
      (∀ c ∈ s.calls, 0 < c.1 ∧ received[c.1 - 1]? = some c.2) ∧
      (s.calls.map Prod.snd).Sublist received ∧
      (∀ (before : List (Event Bytes)) (v : Bytes) (between : List (Event Bytes)) (w : Bytes)
          (after : List (Event Bytes)),
        es = before ++ .receive v :: (between ++ .receive w :: after) →
        .expire ((values before).length + 1) ∉ between →
          (values before).length + 1 ∉ s.calls.map Prod.fst) ∧
      (∀ before after : List (Event Bytes), es = before ++ after →
        (.close ∈ before ∨ (∃ reason, .cancel reason ∈ before) ∨ ∃ (i : Nat) (c : Nat × Bytes),
          (run act {} before).calls[i]? = some c ∧ act (i + 1) c.2 ≠ none) →
            s = run act {} before) ∧
      ∀ r : Ending, s.ending = some r ↔ ∃ (before : List (Event Bytes)) (e : Event Bytes)
        (after : List (Event Bytes)), es = before ++ e :: after ∧
          (run act {} before).ending = none ∧
          ((e = .close ∧ r.error? = none ∧ r = .closed) ∨
            (∃ reason, e = .cancel reason ∧ r.error? = some reason ∧ r = .cancelled reason) ∨
            ∃ (n : Nat) (v reason : Bytes), e = .expire n ∧ Waits before n v ∧
              act ((run act {} before).calls.length + 1) v = some reason ∧
              r.error? = some reason ∧ r = .failed reason)) ∧
    ∀ (timing : Timing) (cs : List (Int × Command)), ∃ es : List (Event Bytes),
      (schedule act timing cs).1.state = run act {} es ∧
      (schedule act timing cs).1.calls.map Prod.snd = (run act {} es).calls.map Prod.snd ∧
      values es = delivered cs (schedule act timing cs).2 := by
  refine ⟨fun es e => ?_, fun es n => run_concat_of_replaced act, fun es => ?_,
    fun timing cs => ?_⟩
  · refine ⟨call? (run act {} es) e, by rw [run_concat, calls_step], fun n v => ?_⟩
    refine ⟨call?_run_iff act, fun hcall => ?_⟩
    obtain ⟨-, -, hwaits⟩ := (call?_run_iff act).mp hcall
    exact ⟨hwaits.getLast?_values, hwaits.length_values⟩
  · intro s received
    refine ⟨(ordered_run act es).increasing, fun c => getElem?_values_of_mem_calls act,
      calls_sublist act es, ?_, ?_, fun r => ?_⟩
    · rintro before v between w after rfl hexpire
      exact replaced_notMem_calls act hexpire
    · rintro before after rfl hstop
      refine (run_append act {} before after).trans (run_of_ending act ?_ after)
      rcases hstop with h | h | ⟨i, c, hc, hact⟩
      · exact ending_ne_none_of_mem act (Or.inl h)
      · exact ending_ne_none_of_mem act (Or.inr h)
      · obtain ⟨reason, hreason⟩ := Option.ne_none_iff_exists'.mp hact
        rw [ending_of_failing act hc hreason]
        simp
    · refine (ending_run_iff act).trans (exists_congr fun before => exists_congr fun e =>
        exists_congr fun after => and_congr_right fun _ => and_congr_right fun _ => ?_)
      constructor
      · rintro (⟨he, rfl⟩ | ⟨reason, he, rfl⟩ | ⟨n, v, reason, he, hwaits, hact, rfl⟩)
        · exact Or.inl ⟨he, rfl, rfl⟩
        · exact Or.inr (Or.inl ⟨reason, he, rfl, rfl⟩)
        · exact Or.inr (Or.inr ⟨n, v, reason, he, hwaits, hact, rfl, rfl⟩)
      · rintro (⟨he, -, hr⟩ | ⟨reason, he, -, hr⟩ | ⟨n, v, reason, he, hwaits, hact, -, hr⟩)
        · exact Or.inl ⟨he, hr⟩
        · exact Or.inr (Or.inl ⟨reason, he, hr⟩)
        · exact Or.inr (Or.inr ⟨n, v, reason, he, hwaits, hact, hr⟩)
  · obtain ⟨es, hplays, hes⟩ := Timeline.exists_run_schedule act timing cs
    exact ⟨es, hplays.state, hplays.calls, hes⟩

/-- The timer of the first value expires after it was replaced, and the second action fails. -/
theorem latest_value_acted_on_stale :
    let act : Nat → Bytes → Option Bytes := failingAt 2
    let a : List (Event Bytes) := [.receive (utf8 "a")]
    let rest : List (Event Bytes) := [.expire 1, .expire 2, .receive (utf8 "c"), .expire 3, .close]
    let s := run act {} (a ++ .receive (utf8 "b") :: rest)
    s.calls = [(2, utf8 "b"), (3, utf8 "c")] ∧ s.ending = some (.failed (utf8 "call 2 failed")) ∧
      1 ∉ s.calls.map Prod.fst ∧ run act {} (a ++ [.receive (utf8 "b")] ++ [.expire 1]) =
        run act {} (a ++ [.receive (utf8 "b")]) := by
  intro act a rest s
  obtain ⟨-, hstale, hruns, -⟩ := latest_value_acted_on act
  obtain ⟨-, -, -, hreplaced, -⟩ := hruns (a ++ .receive (utf8 "b") :: rest)
  exact ⟨by decide, by decide, hreplaced [] (utf8 "a") [] (utf8 "b") rest rfl (by simp),
    hstale _ 1 (by decide)⟩

end Debounce

end LiveMarkup

import LiveMarkup.Proofs.Expression.Rooted
import LiveMarkup.Proofs.Expression.Values
import LiveMarkup.Proofs.Live.Coherence

/-!
# What a handler does

A statement is compiled to a text, and when its handler is called, the text is read again and
evaluated. In the end a handler does what its statement says: an increment or a decrement changes an
integer by its operand, in the arithmetic of 64 bits, and an assignment sets the state to the value
of its literal, whatever the state was. Nothing else is changed, there is one refresh, and a call
that fails leaves the state and the refreshes as they are. All that is asked of the evaluator is
what is documented of it (`LiveMarkup.Evaluator.Documented`).

There is one exception. The language has escapes for octets that make no characters, and a literal
is written anew as characters; so a string that is not well-formed is repaired
(`LiveMarkup.Constant.repaired`), and the state does not get the string that was written.
-/

namespace LiveMarkup

namespace Constant

/-- A constant with the stray octets of a text replaced. -/
def repaired : Constant → Constant
  | .string s => .string (Utf8.repair s)
  | c => c

/-- Whether a constant is well-formed if it is a text. -/
def isText : Constant → Bool
  | .string s => Utf8.isValid s
  | _ => true

theorem repaired_eq_self_iff {c : Constant} : c.repaired = c ↔ c.isText := by
  cases c with
  | string s => rw [repaired, isText, Constant.string.injEq, Utf8.repair_eq_self_iff]
  | _ => exact iff_of_true rfl rfl

end Constant

/-! ### What a statement is compiled from -/

/-- Whether a term is a floating literal with at most one sign. -/
def Expression.Term.isFloat : Expression.Term → Bool
  | .float _ | .unary .identity (.float _) | .unary .negate (.float _) => true
  | _ => false

namespace Literal

open Expression

variable {e : Term} {l : Literal} {form : StrayForm}

theorem constant?_of_ofTerm? (h : ofTerm? e form = some l) :
    e.isFloat ∨ ∃ c, e.constant? = some c := by
  rw [ofTerm?.eq_def] at h
  split at h
  · exact Or.inr ⟨_, rfl⟩
  · exact Or.inr ⟨_, rfl⟩
  · exact Or.inr ⟨_, rfl⟩
  · exact Or.inl rfl
  · exact Or.inl rfl
  · exact Or.inl rfl
  · exact Or.inr ⟨_, rfl⟩
  · exact Or.inr ⟨_, rfl⟩
  · cases h

/-- **The integer of a literal is not the least one**, which no numeral gives. -/
theorem ne_minValue (he : e.isRooted) {d : Int64} (h : e.constant? = some (.int d)) :
    d ≠ Int64.minValue := by
  have hmin : Int64.minValue.toInt = -2 ^ 63 := rfl
  have hnonneg {n : Int64} (hn : decide (0 ≤ n.toInt)) : n ≠ Int64.minValue := by
    rintro rfl
    rw [hmin] at hn
    exact absurd hn (by decide)
  rw [Term.constant?.eq_def] at h
  split at h
  · cases h
    exact hnonneg he
  · cases h
    exact hnonneg he
  · rename_i n
    cases h
    -- What is negated is a numeral that fits, so the result is above the least integer.
    have hn : 0 ≤ n.toInt := of_decide_eq_true he
    have hlt := Int64.toInt_lt n
    intro hmin'
    have htoInt := congrArg Int64.toInt hmin'
    rw [Int64.toInt_neg, Int.bmod_eq_of_le (by omega) (by omega), hmin] at htoInt
    omega
  · cases h
  · cases h
  · cases h

/-- **The text of a literal evaluates to its constant**, repaired. -/
theorem evaluate?_text {E : Evaluator} (hE : E.Documented) (he : e.isRooted)
    (h : ofTerm? e form = some l) {c : Constant} (hc : e.constant? = some c)
    (state : Fields E.Value) : E.evaluate? state l.text = some (E.constant c.repaired) := by
  have hint {d : Int64} (hd : e.constant? = some (.int d)) :
      E.evaluate? state (ofInt d).text = some (E.constant (.int d)) :=
    hE.evaluate?_decimalInt (ne_minValue he hd) state
  rw [ofTerm?.eq_def] at h
  split at h
  · cases h
    cases hc
    exact hint rfl
  · cases h
    cases hc
    exact hint rfl
  · cases h
    cases hc
    exact hint rfl
  -- Floating numbers are not among the constants.
  · cases hc
  · cases hc
  · cases hc
  · cases h
    cases hc
    exact hE.literal _ _ _ (parse?_scriptString _ form) rfl state
  · rename_i b
    cases h
    cases hc
    exact hE.literal _ _ _ (parse?_ofBool b) rfl state
  · cases h

theorem integer?_of_ofTerm? (h : ofTerm? e form = some l) {d : Int64} (hd : l.integer? = some d) :
    e.constant? = some (.int d) := by
  rw [ofTerm?.eq_def] at h
  split at h
  all_goals cases h
  all_goals cases hd
  all_goals rfl

end Literal

namespace Statement

open Expression

/-- The operand of a statement, as it is written. -/
def operand? (st : Statement) : Option Bytes := (split? st.text).map fun y => y.2.2.trim

theorem isValid_of_parseTarget? {s x : Bytes} (h : parseTarget? s = some x) : Utf8.isValid x := by
  obtain ⟨t, ht, hx⟩ := Option.bind_eq_some_iff.mp h
  have hrooted := isRooted_of_parse? ht
  rw [targetOfTerm?.eq_def] at hx
  split at hx
  · split at hx
    · cases hx
      exact hrooted
    · cases hx
  · cases hx

/-- **What a compiled statement is made of**: a target, an operator and a literal. -/
theorem exists_of_action {body : Bytes} (h : (ofBody body).action ≠ .raw) :
    ∃ (x : Bytes) (op : Assignment) (code : Bytes) (e : Term) (l : Literal), Utf8.isValid x ∧
      (ofBody body).operand? = some code ∧ parse? code = some e ∧ Literal.ofTerm? e = some l ∧
      actionOf? x op l = some (ofBody body).action := by
  -- A statement that is not taken over as it is was put together by `action?`.
  have haction : action? (ofBody body).text = some (ofBody body).action := by
    rw [ofBody] at h ⊢
    dsimp only at h ⊢
    cases ha : action? (dropSemicolon body.trim).trim with
    | none => exact absurd (by rw [ha]; rfl) h
    | some a => rfl
  rw [action?] at haction
  split at haction
  · cases haction
  · rename_i before op operand hsplit
    split at haction
    · rename_i x l hx hl
      obtain ⟨e, he, hl⟩ := Option.bind_eq_some_iff.mp hl
      refine ⟨x, op, operand.trim, e, l, isValid_of_parseTarget? hx, ?_, he, hl, haction⟩
      rw [operand?, hsplit, Option.map_some]
    · cases haction

theorem of_actionOf? {x : Bytes} {op : Assignment} {l : Literal} {a : Action}
    (h : actionOf? x op l = some a) :
    a = .assign x l.text ∨
      ∃ d : Int64, l.integer? = some d ∧ (a = .increment x d ∨ a = .decrement x d) := by
  rw [actionOf?.eq_def] at h
  split at h
  · exact Or.inl (Option.some.inj h).symm
  · rename_i d hd
    exact Or.inr ⟨d, hd, Or.inl (Option.some.inj h).symm⟩
  · rename_i d hd
    exact Or.inr ⟨d, hd, Or.inr (Option.some.inj h).symm⟩
  · cases h

variable {E : Evaluator} {body x : Bytes}

/-- What is known of an increment or a decrement that was compiled. -/
theorem isValid_and_ne_minValue {d : Int64}
    (h : (ofBody body).action = .increment x d ∨ (ofBody body).action = .decrement x d) :
    Utf8.isValid x ∧ d ≠ Int64.minValue := by
  have hraw : (ofBody body).action ≠ .raw := by
    rcases h with h | h <;> simp [h]
  obtain ⟨y, op, code, e, l, hvalid, -, he, hl, haction⟩ := exists_of_action hraw
  obtain hassign | ⟨k, hk, hadjust⟩ := of_actionOf? haction
  · rcases h with h | h <;> simp [h] at hassign
  · obtain ⟨rfl, rfl⟩ : y = x ∧ k = d := by
      rcases h with h | h <;> simpa [h, eq_comm] using hadjust
    have hvalue := Literal.integer?_of_ofTerm? hl hk
    exact ⟨hvalid, Literal.ne_minValue (isRooted_of_parse? he) hvalue⟩

section Documented

variable (hE : E.Documented)

include hE

/-- **The new value of an increment or a decrement** of an integer. -/
theorem evaluate?_increment {d : Int64} (h : (ofBody body).action = .increment x d)
    {state : Fields E.Value} {v : E.Value} (hv : Fields.get? x state = some v) {n : Int64}
    (hn : E.integer? v = some n) :
    E.evaluate? state (ofBody body).valueExpression = some (E.constant (.int (n + d))) := by
  obtain ⟨hvalid, hd⟩ := isValid_and_ne_minValue (Or.inl h)
  rw [valueExpression, h, Action.valueExpression]
  exact hE.evaluate?_adjusted .add hvalid hd hv hn

@[inherit_doc evaluate?_increment]
theorem evaluate?_decrement {d : Int64} (h : (ofBody body).action = .decrement x d)
    {state : Fields E.Value} {v : E.Value} (hv : Fields.get? x state = some v) {n : Int64}
    (hn : E.integer? v = some n) :
    E.evaluate? state (ofBody body).valueExpression = some (E.constant (.int (n - d))) := by
  obtain ⟨hvalid, hd⟩ := isValid_and_ne_minValue (Or.inr h)
  rw [valueExpression, h, Action.valueExpression]
  exact hE.evaluate?_adjusted .subtract hvalid hd hv hn

/-- **The new value of an assignment** is that of its operand as it is written, repaired, unless the
operand is a floating number. Neither depends on the state. -/
theorem evaluate?_assign {text : Bytes} (h : (ofBody body).action = .assign x text) :
    ∃ (code : Bytes) (e : Term), (ofBody body).operand? = some code ∧ parse? code = some e ∧
      (¬ e.isFloat → ∃ c : Constant, e.constant? = some c ∧ ∀ state : Fields E.Value,
        E.evaluate? state code = some (E.constant c) ∧
        E.evaluate? state (ofBody body).valueExpression = some (E.constant c.repaired)) := by
  obtain ⟨y, op, code, e, l, -, hcode, he, hl, haction⟩ :=
    exists_of_action (show (ofBody body).action ≠ .raw by simp [h])
  refine ⟨code, e, hcode, he, fun hfloat => ?_⟩
  obtain ⟨c, hc⟩ := (Literal.constant?_of_ofTerm? hl).resolve_left hfloat
  refine ⟨c, hc, fun state => ⟨hE.literal _ _ _ he hc state, ?_⟩⟩
  obtain hassign | ⟨d, -, hadjust⟩ := of_actionOf? haction
  · rw [valueExpression, hassign, Action.valueExpression]
    exact Literal.evaluate?_text hE (isRooted_of_parse? he) hl hc state
  · rcases hadjust with hadjust | hadjust <;> simp [h] at hadjust

end Documented

end Statement

/-- The handlers of a source are compiled from its statements. -/
theorem Handler.ofBody_of_mem {src : Bytes} {h : Handler}
    (hmem : h ∈ (SourceTree.ofSource src).handlers) :
    ∃ body, h.statement = Statement.ofBody body := by
  rw [← Layout.flatMap_handlers_elements] at hmem
  obtain ⟨e, he, hhe⟩ := List.mem_flatMap.mp hmem
  exact (Layout.spelt_of_mem_elements he).statements h hhe

namespace Store

/-! ### The effect of a handler -/

variable {E : Evaluator} {s : Store E} {h : Handler} {x : Bytes} {v : E.Value}

/-- **A call sets a state and does nothing else**: it succeeds, the other states keep their values,
and there is one more refresh, with the new value and a number of placeholders. -/
structure Sets (s : Store E) (x : Bytes) (v : E.Value) (count : Nat)
    (r : Store E × Option ActionError) : Prop where
  succeeds : r.2 = none
  value : Fields.get? x r.1.state = some v
  others : ∀ y, y ≠ x → Fields.get? y r.1.state = Fields.get? y s.state
  refreshes : r.1.refreshes = s.refreshes ++ [⟨x, v, count⟩]
  page : r.1.markers = s.markers ∧ r.1.wirings = s.wirings

theorem sets_update (s : Store E) (x : Bytes) (v : E.Value) :
    s.Sets x v (s.placeholders x) (s.update x v, none) where
  succeeds := rfl
  value := (Fields.get?_insert x x v s.state).trans (if_pos rfl)
  others y hy := (Fields.get?_insert x y v s.state).trans (if_neg hy.symm)
  refreshes := refreshes_update s x v
  page := ⟨rfl, rfl⟩

theorem isCompiled_iff : h.isCompiled ↔ h.statement.action ≠ .raw := by
  rw [Handler.isCompiled, Statement.isCompiled, decide_eq_true_eq]

/-- **A handler whose value can be evaluated** sets its target. -/
theorem Cached.sets_fire (hs : s.Cached) (htarget : h.statement.action.target? = some x)
    (hv : E.evaluate? s.state h.statement.valueExpression = some v) :
    s.Sets x v (s.placeholders x) (s.perform (.fire h)) := by
  have hcompiled : h.isCompiled := isCompiled_iff.mpr fun hraw => by
    rw [hraw] at htarget
    cases htarget
  obtain ⟨programs, heval, -⟩ := hs.exists_eval h.statement.valueExpression
  have hperform : s.perform (.fire h) = ({ s with programs }.update x v, none) := by
    rw [perform, fire, if_pos hcompiled, run, heval, hv, htarget]
    rfl
  rw [hperform]
  exact { sets_update { s with programs } x v with }

/-- **A handler that is left to the browser** does nothing here. -/
theorem perform_fire_of_raw (s : Store E) (hraw : h.statement.action = .raw) :
    s.perform (.fire h) = (s, some (.notCompiled h.event)) := by
  rw [perform, fire, if_neg (mt isCompiled_iff.mp (not_not.mpr hraw))]

/-- **A handler whose value cannot be evaluated** does nothing but keep its program. -/
theorem Cached.perform_fire_of_none (hs : s.Cached) (hraw : h.statement.action ≠ .raw)
    (hv : E.evaluate? s.state h.statement.valueExpression = none) :
    ∃ programs, s.perform (.fire h) = ({ s with programs }, some (.evaluation h.statement)) := by
  obtain ⟨programs, heval, -⟩ := hs.exists_eval h.statement.valueExpression
  refine ⟨programs, ?_⟩
  rw [perform, fire, if_pos (isCompiled_iff.mpr hraw), run, heval, hv]

/-- A page with one state starts if its initializer can be evaluated. -/
theorem exists_start {t : SourceTree} {d : StateDeclaration} (ht : t.states.declarations = [d])
    (hv : E.evaluate? [] d.initializer = some v) : ∃ s : Store E, start E t = .ok s := by
  have hblank : (blank E t).Cached := cached_blank E t
  obtain ⟨programs, heval, -⟩ := hblank.exists_eval d.initializer
  have hstate : E.evaluate? (blank E t).state d.initializer = some v := hv
  rw [hstate] at heval
  rw [start, ht, declareAll, heval]
  exact ⟨_, rfl⟩

/-- **Handlers do what their statements say**, at every point of every run of a page, with every
evaluator that is as documented. An increment or a decrement of a state that is an integer changes
it by the number of the statement, in the arithmetic of 64 bits. An assignment of a literal that is
not a floating number sets the state to the value of the literal as it is written, whatever the
state was; a string that is not well-formed is repaired. Each of them changes one state, succeeds,
and leaves one refresh, with the new value and the number of placeholders of the state. A handler
that is left to the browser, or whose value cannot be evaluated, fails; the page is then as before,
but for the program that is kept. -/
theorem handlers_carried_out {E : Evaluator} (hE : E.Documented) {src : Bytes} {s₀ : Store E}
    (hstart : start E (SourceTree.ofSource src) = .ok s₀) (cs : List (Call E)) {h : Handler}
    (hmem : h ∈ (SourceTree.ofSource src).handlers) :
    let t := SourceTree.ofSource src
    let s := s₀.performAll cs
    let count := (Document.elements t.states t.nodes).2.placeholders
    (∀ (x : Bytes) (d : Int64) (v : E.Value) (n : Int64), h.statement.action = .increment x d →
      Fields.get? x s.state = some v → E.integer? v = some n →
        s.Sets x (E.constant (.int (n + d))) (count x) (s.perform (.fire h))) ∧
    (∀ (x : Bytes) (d : Int64) (v : E.Value) (n : Int64), h.statement.action = .decrement x d →
      Fields.get? x s.state = some v → E.integer? v = some n →
        s.Sets x (E.constant (.int (n - d))) (count x) (s.perform (.fire h))) ∧
    (∀ x text : Bytes, h.statement.action = .assign x text →
      ∃ (code : Bytes) (e : Expression.Term), h.statement.operand? = some code ∧
        Expression.parse? code = some e ∧
        (¬ e.isFloat → ∃ c : Constant, e.constant? = some c ∧
          (∀ state, E.evaluate? state code = some (E.constant c)) ∧
          (E.constant c.repaired = E.constant c ↔ c.isText) ∧
          s.Sets x (E.constant c.repaired) (count x) (s.perform (.fire h)))) ∧
    (h.statement.action = .raw → s.perform (.fire h) = (s, some (.notCompiled h.event))) ∧
    (h.statement.action ≠ .raw →
      E.evaluate? s.state h.statement.valueExpression = none →
        ∃ programs, s.perform (.fire h) =
          ({ s with programs }, some (.evaluation h.statement))) := by
  intro t s count
  have hsteps := steps_performAll s₀ cs
  have hcached : s.Cached := ((coherent_of_start hstart).1.steps hsteps).cached
  have hcount (x : Bytes) : s.placeholders x = count x := by
    rw [placeholders, hsteps.frame.1, ← placeholders, placeholders_of_start hstart]
  obtain ⟨body, hbody⟩ := Handler.ofBody_of_mem hmem
  refine ⟨fun x d v n haction hv hn => ?_, fun x d v n haction hv hn => ?_,
    fun x text haction => ?_, perform_fire_of_raw s, hcached.perform_fire_of_none⟩
  · rw [← hcount]
    refine hcached.sets_fire (by rw [haction, Action.target?]) ?_
    rw [hbody] at haction ⊢
    exact Statement.evaluate?_increment hE haction hv hn
  · rw [← hcount]
    refine hcached.sets_fire (by rw [haction, Action.target?]) ?_
    rw [hbody] at haction ⊢
    exact Statement.evaluate?_decrement hE haction hv hn
  · have htarget : h.statement.action.target? = some x := by rw [haction, Action.target?]
    rw [hbody] at haction
    obtain ⟨code, e, hcode, he, hvalue⟩ := Statement.evaluate?_assign hE haction
    refine ⟨code, e, by rw [hbody, hcode], he, fun hfloat => ?_⟩
    obtain ⟨c, hc, hvalues⟩ := hvalue hfloat
    refine ⟨c, hc, fun state => (hvalues state).1,
      hE.constants.eq_iff.trans Constant.repaired_eq_self_iff, ?_⟩
    rw [← hcount]
    refine hcached.sets_fire htarget ?_
    rw [hbody]
    exact (hvalues s.state).2

/-- A difference that does not fit in 64 bits, after the state has been set from outside. -/
theorem handlers_carried_out_wrapping :
    let t := SourceTree.ofSource (utf8 "state n = 1\np(on:a\x7bn.value-=-2\x7d) n")
    ∃ (s₀ : Store evaluator) (h : Handler), start evaluator t = .ok s₀ ∧ h ∈ t.handlers ∧
      let s := s₀.performAll [.update (utf8 "n") (.int Int64.maxValue)]
      s.Sets (utf8 "n") (.int (Int64.minValue + 1)) 1 (s.perform (.fire h)) := by
  intro t
  let h : Handler := ⟨⟨2, 1⟩, utf8 "a", Statement.ofBody (utf8 "n.value-=-2"), ⟨2, 2⟩⟩
  have hmem : h ∈ t.handlers := by decide +kernel
  have haction : h.statement.action = .decrement (utf8 "n") (-2) := by decide +kernel
  have hstates : t.states.declarations = [⟨utf8 "n", utf8 "1", ⟨1, 1⟩⟩] := by decide +kernel
  have hone : evaluator.evaluate? [] (utf8 "1") = some (.int 1) :=
    documented_evaluator.evaluate?_decimalInt (d := 1) (by decide) []
  have hcount : (Document.elements t.states t.nodes).2.placeholders (utf8 "n") = 1 := by
    decide +kernel
  obtain ⟨s₀, hs⟩ := exists_start hstates hone
  obtain ⟨-, hdecrement, -⟩ :=
    handlers_carried_out documented_evaluator hs [.update (utf8 "n") (.int Int64.maxValue)] hmem
  have hvalue := (sets_update s₀ (utf8 "n") (.int Int64.maxValue)).value
  have hsets := hdecrement (utf8 "n") (-2) _ Int64.maxValue haction hvalue rfl
  exact ⟨s₀, h, hs, hmem, hcount ▸ hsets⟩

end Store

/-! ### A string that is not a text -/

/-- An assignment of a string that has the octet 255 in it, which is part of no character. -/
theorem Statement.ofBody_octet : let st := ofBody (utf8 "x.value=\"\\U800000FF\"")
    st.operand? = some (utf8 "\"\\U800000FF\"") ∧
      st.action = .assign (utf8 "x") (scriptString [0xff]) ∧
      Expression.parse? (utf8 "\"\\U800000FF\"") = some (.string [0xff]) := by
  refine ⟨by decide +kernel, by decide +kernel, ?_⟩
  exact Expression.parse?_of_tokens? (by decide +kernel) (Expression.expression?_string _)

/-- **A string that is not assigned as it is written**: its value is the octet 255, and the state is
set to the replacement character. -/
theorem Store.literal_not_assigned :
    let t := SourceTree.ofSource (utf8 "state x = 0\np(on:a\x7bx.value=\"\\U800000FF\"\x7d)")
    ∃ (s : Store evaluator) (h : Handler), start evaluator t = .ok s ∧ h ∈ t.handlers ∧
      h.statement.operand?.bind (evaluator.evaluate? s.state) = some (.string [0xff]) ∧
      Fields.get? (utf8 "x") (s.perform (.fire h)).1.state = some (.string [0xef, 0xbf, 0xbd]) := by
  intro t
  let h : Handler := ⟨⟨2, 1⟩, utf8 "a", Statement.ofBody (utf8 "x.value=\"\\U800000FF\""), ⟨2, 2⟩⟩
  have hmem : h ∈ t.handlers := by decide +kernel
  have hstates : t.states.declarations = [⟨utf8 "x", utf8 "0", ⟨1, 1⟩⟩] := by decide +kernel
  have hzero : evaluator.evaluate? [] (utf8 "0") = some (.int 0) :=
    documented_evaluator.evaluate?_decimalInt (d := 0) (by decide) []
  have hrepair : Utf8.repair [0xff] = [0xef, 0xbf, 0xbd] := by decide +kernel
  obtain ⟨s, hs⟩ := exists_start hstates hzero
  have hoperand : h.statement.operand? = some (utf8 "\"\\U800000FF\"") := Statement.ofBody_octet.1
  have haction : h.statement.action = .assign (utf8 "x") (scriptString [0xff]) :=
    Statement.ofBody_octet.2.1
  have hparse := Statement.ofBody_octet.2.2
  refine ⟨s, h, hs, hmem, ?_, ?_⟩
  · rw [hoperand, Option.bind_some]
    exact Expression.evaluate?_of_constant? hparse rfl s.state
  · have htarget : h.statement.action.target? = some (utf8 "x") := by rw [haction, Action.target?]
    have hvalue : evaluator.evaluate? s.state h.statement.valueExpression =
        some (.string [0xef, 0xbf, 0xbd]) := by
      rw [Statement.valueExpression, haction, Action.valueExpression, ← hrepair]
      exact Expression.evaluate?_of_constant? (Expression.parse?_scriptString _ _) rfl s.state
    exact ((coherent_of_start hs).1.cached.sets_fire htarget hvalue).value

end LiveMarkup

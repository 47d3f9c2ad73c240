import LiveMarkup.Expression.Evaluate
import LiveMarkup.Proofs.Expression.Tokens

/-!
# Values of what is written

The expressions that statements are compiled to are written as texts, and a text is read again when
it is evaluated. What has to be known of an evaluator is `LiveMarkup.Evaluator.Documented`: what
literals, sums and differences evaluate to. It follows what the texts of statements evaluate to:

* a string literal is read as the text that it is written for, with its stray octets replaced
  (`LiveMarkup.Expression.parse?_scriptString`);
* a decimal numeral, with or without a sign, evaluates to its integer
  (`LiveMarkup.Evaluator.Documented.evaluate?_decimalInt`);
* the sum or the difference of a state and a numeral evaluates to the sum or the difference, in the
  arithmetic of 64-bit integers (`LiveMarkup.Evaluator.Documented.evaluate?_adjusted`).

The evaluator of the expression language is documented (`LiveMarkup.documented_evaluator`). A sign
is an operator of its own in the language, so a negative numeral is a term that has to be worked out
before it is an integer (`LiveMarkup.Expression.WorksOut`).
-/

namespace LiveMarkup

namespace Expression

/-! ### From tokens to terms -/

theorem parse?_of_tokens? {s : Bytes} {ts : List Token} {e : Term} {hrest : 0 < ts.length}
    (hts : tokens? s = some ts) (h : expression? 0 ts = some ⟨e, [], hrest⟩) :
    parse? s = some e := by
  rw [parse?, hts]
  dsimp only
  rw [h]
  rfl

theorem expression?_string (s : Bytes) :
    expression? 0 [.string s] = some ⟨.string s, [], Nat.zero_lt_succ _⟩ := by
  simp [expression?, primary?, parts?, operators?, choices?, skip?]

theorem expression?_number {t : Bytes} {e : Term} (h : Numeral.term? t = some e) (p : Nat) :
    expression? p [.number t] = some ⟨e, [], Nat.zero_lt_succ _⟩ := by
  simp [expression?, primary?, operators?, choices?, skip?, h]

theorem expression?_constant {w : Bytes} {e : Term} (h : constant? w = some e) :
    expression? 0 [.word w] = some ⟨e, [], Nat.zero_lt_succ _⟩ := by
  simp [expression?, primary?, operators?, choices?, skip?, h]

theorem expression?_negative {t : Bytes} {e : Term} (h : Numeral.term? t = some e) (p : Nat) :
    expression? p [.mark .minus, .number t] =
      some ⟨.unary .negate e, [], Nat.zero_lt_succ _⟩ := by
  simp [expression?, primary?, unaryOp?, parts?, operators?, choices?, skip?, h]

/-- **The operators that change a state by a number**: how they are written between blanks, their
marks, and what they do to integers. -/
inductive Adjusts : Bytes → Mark → BinaryOp → (Int64 → Int64 → Int64) → Prop
  | add : Adjusts (utf8 " + ") .plus .add (· + ·)
  | subtract : Adjusts (utf8 " - ") .minus .subtract (· - ·)

section Adjusts

variable {text : Bytes} {m : Mark} {op : BinaryOp} {f : Int64 → Int64 → Int64}
  (hm : Adjusts text m op f)

include hm

theorem Adjusts.lexes : Lexes text [.mark m] := by
  cases hm with
  | add => exact lexes_plus
  | subtract => exact lexes_minus

/-- A state with an operator and an operand behind it. -/
theorem expression?_state (x : Bytes) {ts : List Token} {e : Term} {hrest : 0 < ts.length}
    (h : expression? 31 ts = some ⟨e, [], hrest⟩) :
    expression? 0 (.word (utf8 "state") :: .mark .leftBracket :: .string x :: .mark .rightBracket ::
        .mark m :: ts) =
      some ⟨.binary op (.access (.name (utf8 "state")) (.string x) false) e, [],
        Nat.zero_lt_succ _⟩ := by
  have hname : constant? (utf8 "state") = none := by decide
  -- Both operators bind alike, so that the operand is read in the same way.
  cases hm with
  | add =>
    have hright : BinaryOp.add.rightPrecedence = 31 := rfl
    simp [expression?, primary?, operators?, choices?, skip?, parts?, bracket?, hname, binaryOp?,
      indexTerm, hright, h, BinaryOp.isComparison]
  | subtract =>
    have hright : BinaryOp.subtract.rightPrecedence = 31 := rfl
    simp [expression?, primary?, operators?, choices?, skip?, parts?, bracket?, hname, binaryOp?,
      indexTerm, hright, h, BinaryOp.isComparison]

end Adjusts

/-! ### Literals -/

/-- **What a literal stands for** that is not a floating number: an integer with at most one sign, a
string or a truth value. -/
def Term.constant? : Term → Option Constant
  | .int n | .unary .identity (.int n) => some (.int n)
  | .unary .negate (.int n) => some (.int (-n))
  | .string s => some (.string s)
  | .bool b => some (.bool b)
  | _ => none

theorem parse?_scriptString (s : Bytes) (form : StrayForm) :
    parse? (scriptString s form) = some (.string (Utf8.repair s)) :=
  parse?_of_tokens? (lexes_scriptString s form).tokens? (expression?_string _)

theorem parse?_ofBool (b : Bool) : parse? (Literal.ofBool b).text = some (.bool b) := by
  have htokens : tokens? (Literal.ofBool b).text = some [.word (Literal.ofBool b).text] := by
    cases b <;> decide +kernel
  have hconstant : constant? (Literal.ofBool b).text = some (.bool b) := by cases b <;> rfl
  exact parse?_of_tokens? htokens (expression?_constant hconstant)

/-- **A signed numeral** gives tokens that are read as its integer. The least integer is left out:
its numeral would be that of a number that does not fit. -/
theorem exists_numeral {d : Int64} (hd : d ≠ Int64.minValue) :
    ∃ (cs : List Char) (ts : List Token) (e : Term), decimalInt d.toInt = Utf8.encodeAll cs ∧
      charTokens? cs = some ts ∧ e.constant? = some (.int d) ∧
      ∀ p : Nat, ∃ hrest : 0 < ts.length, expression? p ts = some ⟨e, [], hrest⟩ := by
  have hlow := Int64.le_toInt d
  have hhigh := Int64.toInt_lt d
  cases hn : d.toInt with
  | ofNat n =>
    rw [hn] at hhigh
    have hlt : n < 2 ^ 63 := Int.ofNat_lt.mp hhigh
    have hvalue : Int64.ofNat n = d := by
      rw [← Int64.toInt_inj, Int64.toInt_ofNat_of_lt hlt, hn]
      rfl
    refine ⟨Nat.toDigits 10 n, _, .int d, (encodeAll_toDigits n).symm, charTokens?_toDigits n, rfl,
      fun p => ⟨by simp, ?_⟩⟩
    rw [expression?_number (term?_decimalNat hlt), hvalue]
  | negSucc n =>
    -- The magnitude fits, because the least integer is left out.
    have hlt : n + 1 < 2 ^ 63 := by
      have hmin : d.toInt ≠ -2 ^ 63 := fun h => hd (Int64.toInt_inj.mp h)
      omega
    have hvalue : -Int64.ofNat (n + 1) = d := by
      rw [← Int64.toInt_inj, Int64.toInt_neg, Int64.toInt_ofNat_of_lt hlt, hn,
        Int.bmod_eq_of_le (by omega) (by omega), Int.negSucc_eq]
      rfl
    refine ⟨'-' :: Nat.toDigits 10 (n + 1), _, .unary .negate (.int (Int64.ofNat (n + 1))), ?_, ?_,
      ?_, fun p => ⟨?_, expression?_negative (term?_decimalNat hlt) p⟩⟩
    · rw [decimalInt, ← encodeAll_toDigits]
      rfl
    · rw [charTokens?_of_step? (o := some (.mark .minus)) rfl, charTokens?_toDigits]
      rfl
    · rw [Term.constant?, hvalue]
    · simp

/-! ### Evaluation -/

/-- What has to be known of a term to evaluate it: its shape, and what is left of it once its signs
are worked out. -/
structure WorksOut (e : Term) (k : Kind) (t : Term) : Prop where
  resolved : resolve? [] e = some (⟨k, none⟩, e)
  folded : foldKnown? e = some ⟨t, true⟩

theorem worksOut_int (n : Int64) : WorksOut (.int n) .int (.int n) :=
  ⟨by rw [resolve?]; rfl, by simp [foldKnown?]⟩

theorem worksOut_unary {op : UnaryOp} {n m : Int64} (h : foldUnary op (.int n) = .int m)
    (hop : op ≠ .not) : WorksOut (.unary op (.int n)) .int (.int m) := by
  constructor
  · rw [resolve?, (worksOut_int n).resolved]
    cases op with
    | not => exact absurd rfl hop
    | negate | identity => rfl
  · rw [foldKnown?, (worksOut_int n).folded]
    exact congrArg (fun t => some (Folded.mk t true)) h

theorem worksOut_integer {e : Term} {d : Int64} (h : e.constant? = some (.int d)) :
    WorksOut e .int (.int d) := by
  rw [Term.constant?.eq_def] at h
  split at h
  all_goals cases h
  · exact worksOut_int d
  · exact worksOut_unary rfl (by decide)
  · exact worksOut_unary rfl (by decide)

theorem evaluate?_evaluator (state : Fields Value) (code : Bytes) :
    evaluator.evaluate? state code = (compile? code).bind (run? code · state) := by
  change ((compile? code).map (code, ·)).bind (fun p => run? p.1 p.2 state) = _
  cases compile? code <;> rfl

theorem evaluate?_of_worksOut {code : Bytes} {e t : Term} {k : Kind} (hparse : parse? code = some e)
    (h : WorksOut e k t) {state : Fields Value} {v : Value}
    (heval : ∀ u, (eval { code, state } (pooled t) u).1 = .ok v) :
    evaluator.evaluate? state code = some v := by
  have hcompile : compile? code = some (pooled t) := by
    rw [compile?, hparse]
    dsimp only
    rw [h.resolved]
    dsimp only
    rw [fold?, h.folded]
    rfl
  rw [evaluate?_evaluator, hcompile, Option.bind_some, run?, heval]

/-- **A literal evaluates to its value**, whatever the state is. -/
theorem evaluate?_of_constant? {code : Bytes} {e : Term} (hparse : parse? code = some e)
    {c : Constant} (h : e.constant? = some c) (state : Fields Value) :
    evaluator.evaluate? state code = some (Value.ofConstant c) := by
  -- With a sign or without one, an integer is worked out before it is evaluated.
  have hint {d : Int64} (hd : e.constant? = some (.int d)) :
      evaluator.evaluate? state code = some (.int d) :=
    evaluate?_of_worksOut hparse (worksOut_integer hd) fun u => by
      rw [pooled, pool, eval]
      · rfl
      all_goals simp
  have hcases := h
  rw [Term.constant?.eq_def] at hcases
  split at hcases
  · cases hcases
    exact hint h
  · cases hcases
    exact hint h
  · cases hcases
    exact hint h
  · rename_i s
    cases hcases
    have hworks : WorksOut (.string s) .string (.string s) :=
      ⟨by rw [resolve?]; rfl, by simp [foldKnown?]⟩
    refine evaluate?_of_worksOut hparse hworks fun u => ?_
    rw [pooled, pool, eval]
    · rfl
    all_goals simp
  · rename_i b
    cases hcases
    have hworks : WorksOut (.bool b) .bool (.bool b) :=
      ⟨by rw [resolve?]; rfl, by simp [foldKnown?]⟩
    refine evaluate?_of_worksOut hparse hworks fun u => ?_
    rw [pooled, pool, eval]
    · rfl
    all_goals simp
  · cases hcases

/-- A state with an integer behind an operator: the kind of a state is not known. -/
theorem worksOut_adjusted {text : Bytes} {m : Mark} {op : BinaryOp} {f : Int64 → Int64 → Int64}
    (hm : Adjusts text m op f) (x : Bytes) {e : Term} {d : Int64} (he : WorksOut e .int (.int d)) :
    WorksOut (.binary op (.access (.name (utf8 "state")) (.string x) false) e) .any
      (.binary op (.access (.name (utf8 "state")) (.string x) false) (.int d)) := by
  have hstate : nameShape [] (utf8 "state") = ⟨.any, none⟩ := by
    rw [nameShape, List.find?_nil]
    exact if_neg (by decide)
  have hresolved : resolve? [] (.access (.name (utf8 "state")) (.string x) false) =
      some (⟨.any, none⟩, .access (.name (utf8 "state")) (.string x) false) := by
    simp [resolve?, hstate, plain, accessKind?]
  have hfolded : foldKnown? (.access (.name (utf8 "state")) (.string x) false) =
      some ⟨.access (.name (utf8 "state")) (.string x) false, true⟩ := by
    simp [foldKnown?]
  constructor
  · rw [resolve?, hresolved, he.resolved]
    cases hm <;> rfl
  · rw [foldKnown?, hfolded, he.folded]
    cases hm <;> rfl

theorem eval_adjusted {text : Bytes} {m : Mark} {op : BinaryOp} {f : Int64 → Int64 → Int64}
    (hm : Adjusts text m op f) {x : Bytes} {env : Environment} (henv : env.locals = []) {v : Value}
    (hv : Fields.get? x env.state = some v) {n : Int64} (hn : v.integer? = some n) (d : Int64)
    (u : Usage) :
    (eval env
        (pooled (.binary op (.access (.name (utf8 "state")) (.string x) false) (.int d))) u).1 =
      .ok (.int (f n d)) := by
  -- The name is that of the state record unless a local definition hides it.
  have hstate : env.lookup (utf8 "state") = .state := by
    rw [Environment.lookup, henv]
    rfl
  have hpart : part? env.state .state (.string x) = some v := by
    rw [part?, field?, Value.toName?, Option.map_some, hv, Option.getD_some]
  have hvalue : binaryValue env.state op v (.int d) = some (.int (f n d)) := by
    cases v with
    | int k | octet k =>
      cases hn
      cases hm <;> rfl
    | _ => cases hn
  have heval : eval env
      (pooled (.binary op (.access (.name (utf8 "state")) (.string x) false) (.int d))) =
        required (part? env.state .state (.string x)) >>= fun a =>
          required (binaryValue env.state op a (.int d)) := by
    cases hm <;> simp [pooled, pool, eval, hstate]
  rw [heval, hpart, required, pure_bind, hvalue]
  rfl

end Expression

/-! ### Documented evaluators -/

/-- **What is documented of the evaluator of a page**, over any state record: what the literals of
the language evaluate to, and the sum and the difference of a state and an integer. Literals that
stand for different things have different values. -/
structure Evaluator.Documented (E : Evaluator) : Prop where
  constants : Function.Injective E.constant
  integer : ∀ n, E.integer? (E.constant (.int n)) = some n
  literal : ∀ (code : Bytes) (e : Expression.Term) (c : Constant),
    Expression.parse? code = some e → e.constant? = some c →
      ∀ state, E.evaluate? state code = some (E.constant c)
  sum : ∀ (code x : Bytes) (e : Expression.Term) (d : Int64),
    Expression.parse? code =
        some (.binary .add (.access (.name (utf8 "state")) (.string x) false) e) →
      e.constant? = some (.int d) →
      ∀ state v n, Fields.get? x state = some v → E.integer? v = some n →
        E.evaluate? state code = some (E.constant (.int (n + d)))
  difference : ∀ (code x : Bytes) (e : Expression.Term) (d : Int64),
    Expression.parse? code =
        some (.binary .subtract (.access (.name (utf8 "state")) (.string x) false) e) →
      e.constant? = some (.int d) →
      ∀ state v n, Fields.get? x state = some v → E.integer? v = some n →
        E.evaluate? state code = some (E.constant (.int (n - d)))

theorem Value.ofConstant_injective : Function.Injective Value.ofConstant := by
  intro c c' h
  cases c <;> cases c' <;> simp_all [Value.ofConstant]

/-- **The evaluator of the expression language is documented.** -/
theorem documented_evaluator : evaluator.Documented where
  constants := Value.ofConstant_injective
  integer _ := rfl
  literal _ _ _ hparse hc state := Expression.evaluate?_of_constant? hparse hc state
  sum _ x _ d hparse hd _ _ _ hv hn :=
    Expression.evaluate?_of_worksOut hparse
      (Expression.worksOut_adjusted .add x (Expression.worksOut_integer hd))
      (Expression.eval_adjusted .add rfl hv hn d)
  difference _ x _ d hparse hd _ _ _ hv hn :=
    Expression.evaluate?_of_worksOut hparse
      (Expression.worksOut_adjusted .subtract x (Expression.worksOut_integer hd))
      (Expression.eval_adjusted .subtract rfl hv hn d)

namespace Evaluator.Documented

open Expression

variable {E : Evaluator} (hE : E.Documented)

include hE

/-- **A signed numeral evaluates to its integer.** -/
theorem evaluate?_decimalInt {d : Int64} (hd : d ≠ Int64.minValue) (state : Fields E.Value) :
    E.evaluate? state (decimalInt d.toInt) = some (E.constant (.int d)) := by
  obtain ⟨cs, ts, e, hcs, htokens, he, hread⟩ := exists_numeral hd
  obtain ⟨hrest, hread⟩ := hread 0
  have htokens : tokens? (decimalInt d.toInt) = some ts := by
    rw [hcs, tokens?, Utf8.lossy_encodeAll, htokens]
  exact hE.literal _ _ _ (parse?_of_tokens? htokens hread) he state

/-- **A sum or a difference of a state and a number.** -/
theorem evaluate?_adjusted {text : Bytes} {m : Mark} {op : BinaryOp} {f : Int64 → Int64 → Int64}
    (hm : Adjusts text m op f) {x : Bytes} (hx : Utf8.isValid x) {d : Int64}
    (hd : d ≠ Int64.minValue) {state : Fields E.Value} {v : E.Value}
    (hv : Fields.get? x state = some v) {n : Int64} (hn : E.integer? v = some n) :
    E.evaluate? state (Action.stateReference x ++ text ++ decimalInt d.toInt) =
      some (E.constant (.int (f n d))) := by
  obtain ⟨cs, ts, e, hcs, htokens, he, hread⟩ := exists_numeral hd
  -- The operand of a sum is read with the precedence above that of sums.
  obtain ⟨hrest, hread⟩ := hread 31
  have htokens : tokens? (Action.stateReference x ++ text ++ decimalInt d.toInt) =
      some ([.word (utf8 "state"), .mark .leftBracket, .string x, .mark .rightBracket] ++
        [.mark m] ++ ts) := by
    rw [hcs, ((lexes_stateReference x).append hm.lexes).tokens?_append, htokens, Option.map_some,
      Utf8.repair_eq_self_iff.mpr hx]
  have hparse := parse?_of_tokens? htokens (expression?_state hm x hread)
  cases hm with
  | add => exact hE.sum _ x e d hparse he state v n hv hn
  | subtract => exact hE.difference _ x e d hparse he state v n hv hn

end Evaluator.Documented

end LiveMarkup

import LiveMarkup.Expression.Parser
import LiveMarkup.Proofs.Text.Utf8

/-!
# What an expression is read from

The names of an expression are words of its text, and its integers are numerals. A word is made of
characters, so it is well-formed however the text is; a numeral has no sign, so an integer is never
negative, and the least integer of 64 bits is not one.

Both are needed only for what an expression consists of at its outside, under signs and accesses
(`LiveMarkup.Expression.Term.isRooted`). The parser keeps this from the tokens on: every function of
it returns a rooted term and leaves words that are texts, if it was given such. The functions of the
parser go back to each other through `expression?` on fewer tokens only, so this is assumed of it
for short lists (`LiveMarkup.Expression.RootedBelow`), shown for one function after another, and at
last for `expression?` by induction (`LiveMarkup.Expression.rooted_expression?`).
-/

namespace LiveMarkup

namespace Expression

/-- Whether the name or the integer that is under the signs and accesses of a term can be one that
was read: a name is a text, and an integer is not negative. -/
def Term.isRooted : Term → Bool
  | .name x => Utf8.isValid x
  | .int n => 0 ≤ n.toInt
  | .unary _ e => e.isRooted
  | .access base _ _ => base.isRooted
  | _ => true

/-! ### Tokens -/

/-- Whether a token is a text if it is a word. -/
def Token.isText : Token → Bool
  | .word w => Utf8.isValid w
  | _ => true

/-- The words among some tokens are texts. -/
def Texts (ts : List Token) : Prop := ∀ t ∈ ts, t.isText

theorem isText_wordToken (cs : List Char) : (wordToken cs).isText := by
  rw [wordToken]
  split
  · rfl
  · exact Utf8.isValid_iff.mpr ⟨cs, rfl⟩

theorem isText_of_step? {c : Char} {cs : List Char} {s : Step (c :: cs)} (h : step? c cs = some s)
    {t : Token} (ht : t ∈ s.token) : t.isText := by
  rw [step?.eq_def] at h
  -- White space gives no token, and marks, numerals and strings are no words; only the last case is
  -- a word, which was put together from characters.
  split at h
  · cases h
    cases ht
  split at h
  · split at h
    · cases h
    · cases h
      cases ht
      rfl
  split at h
  · split at h
    · cases h
    · cases h
      cases ht
      rfl
  split at h
  · split at h
    · cases h
    · cases h
      cases ht
      rfl
  split at h
  · split at h
    · cases h
      cases ht
    · split at h
      · cases h
      · cases h
        cases ht
    · cases h
      cases ht
      rfl
  split at h
  · cases h
    cases ht
    rfl
  split at h
  · cases h
    cases ht
    rfl
  split at h
  · cases h
    cases ht
    exact isText_wordToken _
  · cases h

/-- **The words of an expression are texts.** -/
theorem texts_of_tokens? {s : Bytes} {ts : List Token} (h : tokens? s = some ts) : Texts ts := by
  rw [tokens?] at h
  generalize Utf8.lossy s = cs at h
  induction cs using charTokens?.induct generalizing ts with
  | case1 =>
    rw [charTokens?] at h
    cases h
    simp [Texts]
  | case2 c r hstep =>
    rw [charTokens?, hstep] at h
    cases h
  | case3 c r token rest hshort hstep hnone =>
    rw [charTokens?, hstep] at h
    simp [hnone] at h
  | case4 c r token rest hshort hstep ts' hsome ih =>
    rw [charTokens?, hstep] at h
    simp only [hsome, Option.some.injEq] at h
    subst h
    intro t ht
    rcases List.mem_append.mp ht with ht | ht
    · exact isText_of_step? hstep (Option.mem_toList.mp ht)
    · exact ih hsome t ht

namespace Texts

variable {t : Token} {ts r : List Token}

theorem head (h : Texts (t :: ts)) : t.isText := h t List.mem_cons_self

theorem tail (h : Texts (t :: ts)) : Texts ts := fun u hu => h u (List.mem_cons_of_mem t hu)

theorem skip? (hts : Texts ts) {m : Mark} {hr : r.length < ts.length}
    (h : Expression.skip? m ts = some ⟨r, hr⟩) : Texts r := by
  rw [Expression.skip?.eq_def] at h
  split at h
  · split at h
    · cases h
      exact hts.tail
    · cases h
  · cases h

theorem comparison? (hts : Texts ts) {op : BinaryOp} {hr : r.length < ts.length}
    (h : Expression.comparison? ts = some ⟨op, r, hr⟩) : Texts r := by
  rw [Expression.comparison?.eq_def] at h
  split at h
  · split at h
    · cases h
      exact hts.tail
    · cases h
  · cases h

end Texts

theorem Numeral.isRooted_of_term? {text : Bytes} {e : Term} (h : term? text = some e) :
    e.isRooted := by
  have hint {n : Nat} (hn : int? n = some e) : e.isRooted := by
    rw [int?] at hn
    split at hn
    · cases hn
      rename_i hlt
      rw [Term.isRooted, decide_eq_true_eq, Int64.toInt_ofNat_of_lt hlt]
      exact Int.natCast_nonneg n
    · cases hn
  rw [term?] at h
  split at h
  · obtain ⟨n, -, hn⟩ := Option.bind_eq_some_iff.mp h
    exact hint hn
  · split at h
    · obtain ⟨x, -, rfl⟩ := Option.map_eq_some_iff.mp h
      rfl
    · split at h
      · obtain ⟨n, -, hn⟩ := Option.bind_eq_some_iff.mp h
        exact hint hn
      · split at h
        · obtain ⟨n, -, hn⟩ := Option.bind_eq_some_iff.mp h
          exact hint hn
        · obtain ⟨n, -, hn⟩ := Option.bind_eq_some_iff.mp h
          exact hint hn

theorem isRooted_of_constant? {w : Bytes} {e : Term} (h : constant? w = some e) : e.isRooted := by
  rw [constant?] at h
  split_ifs at h
  all_goals
    cases h
    rfl

theorem isRooted_callTerm (w : Bytes) (es : List Term) : (callTerm w es).isRooted := by
  rw [callTerm]
  split <;> rfl

theorem isRooted_propertyTerm {node : Term} (h : node.isRooted) {wrap : Term → Term}
    (hwrap : ∀ e : Term, e.isRooted → (wrap e).isRooted) (name : Bytes) (optional : Bool) :
    (propertyTerm node wrap name optional).isRooted := by
  rw [propertyTerm.eq_def]
  split
  · rfl
  · dsimp only
    split
    · rfl
    · exact hwrap _ h

theorem isRooted_indexTerm {node : Term} (h : node.isRooted) (key : Term) (optional : Bool) :
    (indexTerm node key optional).isRooted := by
  rw [indexTerm]
  split
  · rfl
  · exact h

/-! ### The parser -/

/-- What was read is rooted, and the words that are left are texts. -/
structure Rooted (e : Term) (rest : List Token) : Prop where
  value : e.isRooted
  texts : Texts rest

/-- Expressions that are read from fewer than `n` tokens are rooted. -/
def RootedBelow (n : Nat) : Prop :=
  ∀ {p : Nat} {ts : List Token} {e : Term} {rest : List Token} {hrest : rest.length < ts.length},
    ts.length < n → Texts ts → expression? p ts = some ⟨e, rest, hrest⟩ → Rooted e rest

section Functions

variable {n : Nat} (below : RootedBelow n) {ts rest : List Token} {e : Term}
  {hrest : rest.length < ts.length} {hrest' : rest.length < ts.length + 1}

include below

theorem rooted_definition? {x : Bytes} (hn : ts.length < n) (hts : Texts ts)
    (h : definition? x ts = some ⟨e, rest, hrest⟩) : Rooted e rest := by
  rw [definition?] at h
  split at h
  · cases h
  · next r₁ h₁ hassign =>
    split at h
    · cases h
    · next value r₂ h₂ hvalue =>
      have hvalue := below (by omega) (hts.skip? hassign) hvalue
      split at h
      · cases h
      · next r₃ h₃ hsemicolon =>
        split at h
        · cases h
        · next body r₄ h₄ hbody =>
          have hbody := below (by omega) (hvalue.texts.skip? hsemicolon) hbody
          cases h
          exact ⟨rfl, hbody.texts⟩

-- A call, a list or a map is rooted whatever it is made of, so nothing but the words that are left
-- matters for its parts.
theorem texts_moreArguments? {es : List Term} (hn : ts.length < n) (hts : Texts ts)
    (h : moreArguments? ts = some ⟨es, rest, hrest⟩) : Texts rest := by
  obtain ⟨k, hk⟩ : ∃ k, ts.length = k := ⟨_, rfl⟩
  induction k using Nat.strongRecOn generalizing ts es rest with
  | _ k ih =>
    rw [moreArguments?] at h
    split at h
    · next r₁ h₁ hclose =>
      cases h
      exact hts.skip? hclose
    · split at h
      · cases h
      · next r₁ h₁ hcomma =>
        split at h
        · cases h
        · next e r₂ h₂ he =>
          have he := below (by omega) (hts.skip? hcomma) he
          split at h
          · cases h
          · next es r₃ h₃ hes =>
            have hes := ih _ (by omega) (by omega) he.texts hes rfl
            cases h
            exact hes

theorem texts_arguments? {es : List Term} (hn : ts.length < n) (hts : Texts ts)
    (h : arguments? ts = some ⟨es, rest, hrest⟩) : Texts rest := by
  rw [arguments?] at h
  split at h
  · next r₁ h₁ hclose =>
    cases h
    exact hts.skip? hclose
  · split at h
    · cases h
    · next e r₁ h₁ he =>
      have he := below hn hts he
      split at h
      · cases h
      · next es r₂ h₂ hes =>
        have hes := texts_moreArguments? below (by omega) he.texts hes
        cases h
        exact hes

theorem texts_items? {es : List Term} (hn : ts.length < n) (hts : Texts ts)
    (h : items? ts = some ⟨es, rest, hrest⟩) : Texts rest := by
  obtain ⟨k, hk⟩ : ∃ k, ts.length = k := ⟨_, rfl⟩
  induction k using Nat.strongRecOn generalizing ts es rest with
  | _ k ih =>
    rw [items?] at h
    split at h
    · next r₁ h₁ hclose =>
      cases h
      exact hts.skip? hclose
    · split at h
      · cases h
      · next e r₁ h₁ he =>
        have he := below hn hts he
        split at h
        · next r₂ h₂ hclose =>
          cases h
          exact he.texts.skip? hclose
        · split at h
          · cases h
          · next r₂ h₂ hcomma =>
            split at h
            · cases h
            · next es r₃ h₃ hes =>
              have hes := ih _ (by omega) (by omega) (he.texts.skip? hcomma) hes rfl
              cases h
              exact hes

theorem texts_key? (hn : ts.length < n) (hts : Texts ts)
    (h : key? ts = some ⟨e, rest, hrest⟩) : Texts rest := by
  rw [key?.eq_def] at h
  split at h
  · cases h
    exact hts.tail
  · cases h
    exact hts.tail
  · cases h
    exact hts.tail
  · exact (below hn hts h).texts
  · cases h

theorem texts_entry? {e : Term × Term} (hn : ts.length < n) (hts : Texts ts)
    (h : entry? ts = some ⟨e, rest, hrest⟩) : Texts rest := by
  rw [ entry?] at h
  split at h
  · cases h
  · next k r₁ h₁ hk =>
    have hk := texts_key? below hn hts hk
    split at h
    · cases h
    · next r₂ h₂ hcolon =>
      split at h
      · cases h
      · next e r₃ h₃ he =>
        have he := below (by omega) (hk.skip? hcolon) he
        cases h
        exact he.texts

theorem texts_entries? {es : List (Term × Term)} (hn : ts.length < n) (hts : Texts ts)
    (h : entries? ts = some ⟨es, rest, hrest⟩) : Texts rest := by
  obtain ⟨k, hk⟩ : ∃ k, ts.length = k := ⟨_, rfl⟩
  induction k using Nat.strongRecOn generalizing ts es rest with
  | _ k ih =>
    rw [entries?] at h
    split at h
    · next r₁ h₁ hclose =>
      cases h
      exact hts.skip? hclose
    · split at h
      · cases h
      · next e r₁ h₁ he =>
        have he := texts_entry? below hn hts he
        split at h
        · next r₂ h₂ hclose =>
          cases h
          exact he.skip? hclose
        · split at h
          · cases h
          · next r₂ h₂ hcomma =>
            split at h
            · cases h
            · next es r₃ h₃ hes =>
              have hes := ih _ (by omega) (by omega) (he.skip? hcomma) hes rfl
              cases h
              exact hes

theorem rooted_property? {node : Term} {optional : Bool} {t : Token} (hn : ts.length < n)
    (hnode : node.isRooted) (hts : Texts ts)
    (h : property? node optional t ts = some ⟨e, rest, hrest'⟩) : Rooted e rest := by
  rw [property?.eq_def] at h
  split at h
  · cases h
  · next name hname =>
    split at h
    · split at h
      · cases h
      · next es r₁ h₁ hes =>
        have hes := texts_arguments? below (Nat.lt_of_succ_lt hn) hts.tail hes
        have hcall : ∀ e : Term, e.isRooted → (Term.call e es).isRooted := fun _ _ => rfl
        cases h
        exact ⟨isRooted_propertyTerm hnode hcall name _, hes⟩
    · cases h
      exact ⟨isRooted_propertyTerm hnode (fun _ he => he) name _, hts⟩

theorem rooted_sliceEnd? {node low : Term} (hn : ts.length < n) (hts : Texts ts)
    (h : sliceEnd? node low ts = some ⟨e, rest, hrest⟩) : Rooted e rest := by
  rw [sliceEnd?] at h
  split at h
  · next r₁ h₁ hclose =>
    cases h
    exact ⟨rfl, hts.skip? hclose⟩
  · split at h
    · cases h
    · next high r₁ h₁ hhigh =>
      have hhigh := below hn hts hhigh
      split at h
      · cases h
      · next r₂ h₂ hclose =>
        cases h
        exact ⟨rfl, hhigh.texts.skip? hclose⟩

theorem rooted_bracket? {node : Term} {optional : Bool} (hn : ts.length < n) (hnode : node.isRooted)
    (hts : Texts ts) (h : bracket? node optional ts = some ⟨e, rest, hrest⟩) : Rooted e rest := by
  rw [bracket?] at h
  split at h
  · next r₁ h₁ hcolon =>
    split at h
    · cases h
    · next e r₂ h₂ he =>
      have he := rooted_sliceEnd? below (by omega) (hts.skip? hcolon) he
      cases h
      exact he
  · split at h
    · cases h
    · next key r₁ h₁ hkey =>
      have hkey := below hn hts hkey
      split at h
      · next r₂ h₂ hclose =>
        cases h
        exact ⟨isRooted_indexTerm hnode key optional, hkey.texts.skip? hclose⟩
      · split at h
        · cases h
        · next r₂ h₂ hcolon =>
          split at h
          · cases h
          · next e r₃ h₃ he =>
            have he := rooted_sliceEnd? below (by omega) (hkey.texts.skip? hcolon) he
            cases h
            exact he

theorem rooted_parts? {node : Term} (hn : ts.length < n) (hnode : node.isRooted) (hts : Texts ts)
    (h : parts? node ts = some ⟨e, rest, hrest'⟩) : Rooted e rest := by
  obtain ⟨k, hk⟩ : ∃ k, ts.length = k := ⟨_, rfl⟩
  induction k using Nat.strongRecOn generalizing node ts e rest with
  | _ k ih =>
    rw [parts?.eq_def] at h
    split at h
    · -- An index or a slice behind `?.`.
      simp only [List.length_cons] at hn hk
      split at h
      · cases h
      · next e r₁ h₁ he =>
        have he := rooted_bracket? below (by omega) hnode hts.tail.tail he
        split at h
        · cases h
        · next e' r₂ h₂ he' =>
          have he' := ih _ (by omega) (by omega) he.value he.texts he' rfl
          cases h
          exact he'
    · -- An index or a slice.
      simp only [List.length_cons] at hn hk
      split at h
      · cases h
      · next e r₁ h₁ he =>
        have he := rooted_bracket? below (by omega) hnode hts.tail he
        split at h
        · cases h
        · next e' r₂ h₂ he' =>
          have he' := ih _ (by omega) (by omega) he.value he.texts he' rfl
          cases h
          exact he'
    · -- A property.
      simp only [List.length_cons] at hn hk
      split at h
      · cases h
      · next e r₁ h₁ he =>
        have he := rooted_property? below (by omega) hnode hts.tail.tail he
        split at h
        · cases h
        · next e' r₂ h₂ he' =>
          have he' := ih _ (by omega) (by omega) he.value he.texts he' rfl
          cases h
          exact he'
    · -- A property behind `?.`.
      simp only [List.length_cons] at hn hk
      split at h
      · cases h
      · next e r₁ h₁ he =>
        have he := rooted_property? below (by omega) hnode hts.tail.tail he
        split at h
        · cases h
        · next e' r₂ h₂ he' =>
          have he' := ih _ (by omega) (by omega) he.value he.texts he' rfl
          cases h
          exact he'
    · cases h
    · cases h
    · cases h
      exact ⟨hnode, hts⟩

theorem rooted_primary? (hn : ts.length ≤ n) (hts : Texts ts)
    (h : primary? ts = some ⟨e, rest, hrest⟩) : Rooted e rest := by
  rw [primary?.eq_def] at h
  split at h
  · cases h
  · -- A numeral.
    obtain ⟨e, he, heq⟩ := Option.map_eq_some_iff.mp h
    cases heq
    exact ⟨Numeral.isRooted_of_term? he, hts.tail⟩
  · -- A string.
    simp only [List.length_cons] at hn
    split at h
    · cases h
    · next e r₁ h₁ he =>
      have he := rooted_parts? below (by omega) rfl hts.tail he
      cases h
      exact he
  · -- A word with a parenthesis behind it: a constant, or else a call.
    simp only [List.length_cons] at hn
    split at h
    · next e he =>
      cases h
      exact ⟨isRooted_of_constant? he, hts.tail⟩
    · split at h
      · cases h
      · next es r₁ h₁ hes =>
        have hes := texts_arguments? below (by omega) hts.tail.tail hes
        split at h
        · cases h
        · next e r₂ h₂ he =>
          have he := rooted_parts? below (by omega) (isRooted_callTerm _ es) hes he
          cases h
          exact he
  · -- A word: a constant, or else a name, which is a text because the token is one.
    simp only [List.length_cons] at hn
    split at h
    · next e he =>
      cases h
      exact ⟨isRooted_of_constant? he, hts.tail⟩
    · split at h
      · cases h
      · next e r₁ h₁ he =>
        have hnode : (Term.name _).isRooted := hts.head
        have he := rooted_parts? below (by omega) hnode hts.tail he
        cases h
        exact he
  · -- An expression in parentheses.
    simp only [List.length_cons] at hn
    split at h
    · cases h
    · next e r₁ h₁ he =>
      have he := below (by omega) hts.tail he
      split at h
      · cases h
      · next r₂ h₂ hparen =>
        split at h
        · cases h
        · next e' r₃ h₃ he' =>
          have he' := rooted_parts? below (by omega) he.value (he.texts.skip? hparen) he'
          cases h
          exact he'
  · -- A call behind `::`.
    simp only [List.length_cons] at hn
    split at h
    · cases h
    · next es r₁ h₁ hes =>
      have hes := texts_arguments? below (by omega) hts.tail.tail.tail hes
      split at h
      · cases h
      · next e r₂ h₂ he =>
        have he := rooted_parts? below (by omega) (isRooted_callTerm _ es) hes he
        cases h
        exact he
  · -- A list.
    simp only [List.length_cons] at hn
    split at h
    · cases h
    · next es r₁ h₁ hes =>
      have hes := texts_items? below (by omega) hts.tail hes
      split at h
      · cases h
      · next e r₂ h₂ he =>
        have he := rooted_parts? below (by omega) rfl hes he
        cases h
        exact he
  · -- A record.
    simp only [List.length_cons] at hn
    split at h
    · cases h
    · next es r₁ h₁ hes =>
      have hes := texts_entries? below (by omega) hts.tail hes
      split at h
      · cases h
      · next e r₂ h₂ he =>
        have he := rooted_parts? below (by omega) rfl hes he
        cases h
        exact he
  · -- A sign, under which the operand is.
    simp only [List.length_cons] at hn
    split at h
    · cases h
    · next op _ =>
      split at h
      · cases h
      · next e r₁ h₁ he =>
        have he := below (by omega) hts.tail he
        split at h
        · cases h
        · next e' r₂ h₂ he' =>
          have hnode : (Term.unary op e).isRooted := he.value
          have he' := rooted_parts? below (by omega) hnode he.texts he'
          cases h
          exact he'

theorem rooted_comparisons? {sofar : Option Term} {left : Term} {op : BinaryOp} (hn : ts.length < n)
    (hts : Texts ts) (h : comparisons? sofar left op ts = some ⟨e, rest, hrest⟩) :
    Rooted e rest := by
  obtain ⟨k, hk⟩ : ∃ k, ts.length = k := ⟨_, rfl⟩
  induction k using Nat.strongRecOn generalizing sofar left op ts e rest with
  | _ k ih =>
    rw [comparisons?] at h
    split at h
    · cases h
    · next right r₁ h₁ hright =>
      have hright := below hn hts hright
      dsimp only at h
      split at h
      · cases h
        refine ⟨?_, hright.texts⟩
        cases sofar <;> rfl
      · next op' r₂ h₂ hop =>
        have hop := hright.texts.comparison? hop
        split at h
        · cases h
        · next e r₃ h₃ he =>
          have he := ih _ (by omega) (by omega) hop he rfl
          cases h
          exact he

theorem rooted_operators? {p : Nat} {coalesced : Bool} {left : Term} (hn : ts.length < n)
    (hleft : left.isRooted) (hts : Texts ts)
    (h : operators? p coalesced left ts = some ⟨e, rest, hrest'⟩) : Rooted e rest := by
  obtain ⟨k, hk⟩ : ∃ k, ts.length = k := ⟨_, rfl⟩
  induction k using Nat.strongRecOn generalizing coalesced left ts e rest with
  | _ k ih =>
    rw [operators?.eq_def] at h
    split at h
    · -- A negated operator.
      simp only [List.length_cons] at hn hk
      split at h
      · cases h
      · next op _ =>
        split at h
        · cases h
          exact ⟨hleft, hts⟩
        · split at h
          · cases h
          · split at h
            · cases h
            · next right r₁ h₁ hright =>
              have hright := below (by omega) hts.tail.tail hright
              split at h
              · cases h
              · next e r₂ h₂ he =>
                have he := ih _ (by omega) (by omega) rfl hright.texts he rfl
                cases h
                exact he
    · cases h
    · -- A pipe, behind which there has to be a call.
      simp only [List.length_cons] at hn hk
      split at h
      · cases h
        exact ⟨hleft, hts⟩
      · split at h
        · simp only [List.length_cons] at hn hk
          split at h
          · cases h
          · next es r₁ h₁ hes =>
            have hes := texts_arguments? below (by omega) hts.tail.tail.tail hes
            split at h
            · cases h
            · next e r₂ h₂ he =>
              have he := ih _ (by omega) (by omega) (isRooted_callTerm _ _) hes he rfl
              cases h
              exact he
        · cases h
    · -- Another mark. If it is an operator that binds tightly enough, it is the first one of a
      -- chain of comparisons, or it has one right operand.
      simp only [List.length_cons] at hn hk
      split at h
      · cases h
        exact ⟨hleft, hts⟩
      · next op _ =>
        split at h
        · cases h
          exact ⟨hleft, hts⟩
        · split at h
          · cases h
          · split at h
            · split at h
              · cases h
              · next e r₁ h₁ he =>
                have he := rooted_comparisons? below (by omega) hts.tail he
                split at h
                · cases h
                · next e' r₂ h₂ he' =>
                  have he' := ih _ (by omega) (by omega) he.value he.texts he' rfl
                  cases h
                  exact he'
            · split at h
              · cases h
              · next right r₁ h₁ hright =>
                have hright := below (by omega) hts.tail hright
                split at h
                · cases h
                · next e r₂ h₂ he =>
                  have he := ih _ (by omega) (by omega) rfl hright.texts he rfl
                  cases h
                  exact he
    · cases h
      exact ⟨hleft, hts⟩

theorem rooted_alternatives? {condition : Term} (hn : ts.length < n) (hts : Texts ts)
    (h : alternatives? condition ts = some ⟨e, rest, hrest⟩) : Rooted e rest := by
  rw [alternatives?] at h
  split at h
  · next r₁ h₁ hcolon =>
    split at h
    · cases h
    · next no r₂ h₂ hno =>
      have hno := below (by omega) (hts.skip? hcolon) hno
      cases h
      exact ⟨rfl, hno.texts⟩
  · split at h
    · cases h
    · next yes r₁ h₁ hyes =>
      have hyes := below hn hts hyes
      split at h
      · cases h
      · next r₂ h₂ hcolon =>
        split at h
        · cases h
        · next no r₃ h₃ hno =>
          have hno := below (by omega) (hyes.texts.skip? hcolon) hno
          cases h
          exact ⟨rfl, hno.texts⟩

theorem rooted_choices? {condition : Term} (hn : ts.length < n) (hcondition : condition.isRooted)
    (hts : Texts ts) (h : choices? condition ts = some ⟨e, rest, hrest'⟩) : Rooted e rest := by
  obtain ⟨k, hk⟩ : ∃ k, ts.length = k := ⟨_, rfl⟩
  induction k using Nat.strongRecOn generalizing condition ts e rest with
  | _ k ih =>
    rw [choices?] at h
    split at h
    · cases h
      exact ⟨hcondition, hts⟩
    · next r₁ h₁ hquestion =>
      split at h
      · cases h
      · next c r₂ h₂ hc =>
        have hc := rooted_alternatives? below (by omega) (hts.skip? hquestion) hc
        split at h
        · cases h
        · next e r₃ h₃ he =>
          have he := ih _ (by omega) (by omega) hc.value hc.texts he rfl
          cases h
          exact he

end Functions

/-- **What is read as an expression is rooted.** The induction is on the number of tokens. -/
theorem rooted_expression? {p : Nat} {ts rest : List Token} {e : Term}
    {hrest : rest.length < ts.length} (hts : Texts ts)
    (h : expression? p ts = some ⟨e, rest, hrest⟩) : Rooted e rest := by
  obtain ⟨k, hk⟩ : ∃ k, ts.length = k := ⟨_, rfl⟩
  induction k using Nat.strongRecOn generalizing p ts e rest with
  | _ k ih =>
    -- The assumption of the lemmas above is the induction hypothesis.
    have below : RootedBelow k := fun hlt hus hu => ih _ hlt hus hu rfl
    rw [expression?.eq_def] at h
    split at h
    · simp only [List.length_cons] at hk
      split at h
      · split at h
        · cases h
        · next e r₁ h₁ he =>
          have he := rooted_definition? below (by omega) hts.tail.tail he
          cases h
          exact he
      · cases h
    · split at h
      · cases h
      · next left r₁ h₁ hleft =>
        have hleft := rooted_primary? below (by omega) hts hleft
        split at h
        · cases h
        · next e r₂ h₂ he =>
          have he := rooted_operators? below (by omega) hleft.value hleft.texts he
          split at h
          · split at h
            · cases h
            · next c r₃ h₃ hc =>
              have hc := rooted_choices? below (by omega) he.value he.texts hc
              cases h
              exact hc
          · cases h
            exact he

/-- **An expression is rooted in texts and numerals.** -/
theorem isRooted_of_parse? {s : Bytes} {e : Term} (h : parse? s = some e) : e.isRooted := by
  rw [parse?] at h
  split at h
  · cases h
  · next ts hts =>
    split at h
    · cases h
    · next r hr =>
      split at h
      · cases h
        exact (rooted_expression? (texts_of_tokens? hts) hr).value
      · cases h

end Expression

end LiveMarkup

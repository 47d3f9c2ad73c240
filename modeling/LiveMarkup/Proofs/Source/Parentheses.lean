import LiveMarkup.Proofs.Source.BlockMark
import Mathlib.Algebra.Ring.Int.Defs

/-!
# Literals and parentheses as they are written

A literal is two equal quotes with a body in between: octets that are neither the quote nor a
backslash, and any octet behind a backslash (`LiveMarkup.Quoted.IsBody`). The search for the end of
a literal finds such a body and nothing else (`LiveMarkup.Quotation.exists_of_take?`).

A text ends outside quotations if it is made of whole quotations and of octets between them
(`LiveMarkup.Nesting.Outside`), and its parentheses are balanced if as many are closed as opened
there. The automaton that reads fragments finds exactly that
(`LiveMarkup.Nesting.isParenTop_foldl_iff`), so the search for a closing parenthesis stops at the
first place where they are balanced (`LiveMarkup.Nesting.closeFrom?_level_one_iff`).
-/

namespace LiveMarkup

/-! ### Literals -/

namespace Quoted

/-- **What may stand between two quotes**: octets other than the quote and the backslash, and any
octet behind a backslash. -/
inductive IsBody (q : UInt8) : Bytes → Prop
  | nil : IsBody q []
  | plain {b : UInt8} {s : Bytes} (hslash : b ≠ octet '\\') (hquote : b ≠ q) (h : IsBody q s) :
    IsBody q (b :: s)
  | escaped (b : UInt8) {s : Bytes} (h : IsBody q s) : IsBody q (octet '\\' :: b :: s)

section Body

variable {q : UInt8}

theorem closing?_of_isBody (hq : q ≠ octet '\\') {body : Bytes} (h : IsBody q body) (r : Bytes) :
    closing? q (body ++ q :: r) = some (body ++ [q], r) := by
  induction h with
  | nil => exact closing?_self hq r
  | plain hslash hquote _ ih =>
    rw [List.cons_append, closing?_other hslash hquote, ih]
    rfl
  | escaped b _ ih =>
    rw [List.cons_append, List.cons_append, closing?_escaped, ih]
    rfl

/-- **The first quote that is not escaped ends a literal.** -/
theorem exists_isBody_of_closing? {s l r : Bytes} (h : closing? q s = some (l, r)) :
    ∃ body, IsBody q body ∧ l = body ++ [q] ∧ s = body ++ q :: r := by
  fun_induction closing? q s generalizing l with
  | case1 => exact absurd h (by simp)
  | case2 b hb =>
    obtain ⟨rfl, rfl⟩ : [b] = l ∧ [] = r := by simpa using h
    obtain rfl := hb.2
    exact ⟨[], .nil, rfl, rfl⟩
  | case3 b hb => exact absurd h (by simp)
  | case4 c s ih =>
    obtain ⟨y, hy, heq⟩ := Option.map_eq_some_iff.mp h
    obtain ⟨rfl, rfl⟩ : octet '\\' :: c :: y.1 = l ∧ y.2 = r := by simpa using heq
    obtain ⟨body, hbody, hl, hs⟩ := ih hy
    exact ⟨octet '\\' :: c :: body, .escaped c hbody, by rw [hl]; rfl, by rw [hs]; rfl⟩
  | case5 c s hslash =>
    obtain ⟨rfl, rfl⟩ : [q] = l ∧ c :: s = r := by simpa using h
    exact ⟨[], .nil, rfl, rfl⟩
  | case6 b c s hslash hquote ih =>
    obtain ⟨y, hy, heq⟩ := Option.map_eq_some_iff.mp h
    obtain ⟨rfl, rfl⟩ : b :: y.1 = l ∧ y.2 = r := by simpa using heq
    obtain ⟨body, hbody, hl, hs⟩ := ih hy
    exact ⟨b :: body, .plain hslash hquote hbody, by rw [hl]; rfl, by rw [hs]; rfl⟩

end Body

end Quoted

/-- A literal as it is written. -/
structure Quotation where
  quote : UInt8
  body : Bytes
  isQuote : Quoted.isQuote quote
  isBody : Quoted.IsBody quote body

namespace Quotation

/-- The text of a literal, quotes included. -/
def text (l : Quotation) : Bytes := l.quote :: (l.body ++ [l.quote])

theorem take?_text_append (l : Quotation) (r : Bytes) :
    Quoted.take? (l.text ++ r) = some (l.text, r) := by
  have hslash : l.quote ≠ octet '\\' := by
    intro h
    have hquote := l.isQuote
    rw [h] at hquote
    exact absurd hquote (by decide)
  rw [text, List.cons_append, List.append_assoc, List.singleton_append, Quoted.take?,
    Quoted.closing?_of_isBody hslash l.isBody, Option.map_some]

/-- **What is taken for a literal is one.** -/
theorem exists_of_take? {s l r : Bytes} (hquote : s.head?.any Quoted.isQuote)
    (h : Quoted.take? s = some (l, r)) : ∃ w : Quotation, w.text = l ∧ s = w.text ++ r := by
  cases s with
  | nil => exact absurd h (by simp [Quoted.take?])
  | cons q s =>
    obtain ⟨y, hy, heq⟩ := Option.map_eq_some_iff.mp h
    obtain ⟨rfl, rfl⟩ : q :: y.1 = l ∧ y.2 = r := by simpa using heq
    obtain ⟨body, hbody, hl, hs⟩ := Quoted.exists_isBody_of_closing? hy
    refine ⟨⟨q, body, by simpa using hquote, hbody⟩, ?_, ?_⟩
    · rw [text, hl]
    · rw [text, hs]
      simp

end Quotation

/-! ### Parentheses -/

namespace Nesting

/-- **A text ends outside quotations**; the second text is what of it stands outside them. -/
inductive Outside : Bytes → Bytes → Prop
  | nil : Outside [] []
  | plain {b : UInt8} {s u : Bytes} (hb : isQuote b = false) (h : Outside s u) :
    Outside (b :: s) (b :: u)
  | quotation {q : UInt8} {body s u : Bytes} (hq : isQuote q) (hbody : Quoted.IsBody q body)
    (h : Outside s u) : Outside (q :: (body ++ q :: s)) u

/-- **The parentheses of a text are balanced**: it ends outside quotations, and outside them there
are as many closing parentheses as opening ones. -/
def ParensBalanced (s : Bytes) : Prop :=
  ∃ u, Outside s u ∧ u.count (octet '(') = u.count (octet ')')

/-- No beginning of a text is balanced, however far it goes. -/
def NeverBalanced (s : Bytes) : Prop := ∀ p, p <+: s → p ≠ [] → ¬ ParensBalanced p

/-! ### Runs of the automaton -/

/-- Outside quotations, with a number of parentheses open; the braces do not matter. -/
def Clear (k : Int) (n : Nesting) : Prop := ∃ braces broken, n = ⟨k, braces, none, false, broken⟩

theorem clear_start : Clear 0 {} := ⟨0, false, rfl⟩

theorem clear_noteBroken {k : Int} {n : Nesting} (h : Clear k n) : Clear k n.noteBroken := by
  obtain ⟨braces, broken, rfl⟩ := h
  rw [noteBroken]
  split
  · exact ⟨braces, true, rfl⟩
  · exact ⟨braces, broken, rfl⟩

/-- An octet that is no quote opens or closes a parenthesis if it is one. -/
theorem Clear.step {k : Int} {n : Nesting} (h : Clear k n) {b : UInt8} (hb : isQuote b = false) :
    Clear (k + [b].count (octet '(') - [b].count (octet ')')) (n.step b) := by
  obtain ⟨braces, broken, rfl⟩ := h
  have hother {c d : UInt8} (hcd : c ≠ d) : [c].count d = 0 := by simp [hcd]
  rw [Nesting.step]
  dsimp only
  rw [if_neg (by simp [hb])]
  split_ifs with hopen hclose
  · subst hopen
    rw [List.count_singleton_self, hother (d := octet ')') (by decide)]
    exact clear_noteBroken ⟨braces, broken, by simp⟩
  · subst hclose
    rw [List.count_singleton_self, hother (d := octet '(') (by decide)]
    exact clear_noteBroken ⟨braces, broken, by simp⟩
  all_goals
    rw [hother hopen, hother hclose, Nat.cast_zero, add_zero, sub_zero]
    exact clear_noteBroken ⟨_, broken, rfl⟩

/-- Inside a quotation, what may stand there changes nothing. -/
theorem foldl_step_of_isBody {q : UInt8} {body : Bytes} (h : Quoted.IsBody q body)
    (k braces : Int) (broken : Bool) :
    body.foldl step ⟨k, braces, some q, false, broken⟩ = ⟨k, braces, some q, false, broken⟩ := by
  induction h with
  | nil => rfl
  | plain hslash hquote _ ih =>
    rw [List.foldl_cons, step]
    dsimp only
    rw [if_neg (by simp), if_neg hslash, if_neg hquote, ih]
  | escaped b _ ih => exact ih

/-- A literal that does not end leaves a run inside the quotation. -/
theorem quote_foldl_of_closing? {q : UInt8} {s : Bytes} (h : Quoted.closing? q s = none)
    (k braces : Int) (broken : Bool) :
    (s.foldl step ⟨k, braces, some q, false, broken⟩).quote = some q := by
  fun_induction Quoted.closing? q s with
  | case1 => rfl
  | case2 b hb => exact absurd h (by simp)
  | case3 b hb =>
    rw [List.foldl_cons, step]
    dsimp only
    rw [if_neg (by simp)]
    split_ifs with hslash hquote
    · rfl
    · exact absurd ⟨hslash, hquote⟩ hb
    · rfl
  | case4 c s ih => exact ih (Option.map_eq_none_iff.mp h)
  | case5 c s hslash => exact absurd h (by simp)
  | case6 b c s hslash hquote ih =>
    rw [List.foldl_cons, step]
    dsimp only
    rw [if_neg (by simp), if_neg hslash, if_neg hquote]
    exact ih (Option.map_eq_none_iff.mp h)

theorem step_of_isQuote {q : UInt8} (hq : isQuote q) (k braces : Int) (broken : Bool) :
    ∃ broken', Nesting.step ⟨k, braces, none, false, broken⟩ q =
      ⟨k, braces, some q, false, broken'⟩ := by
  rw [step]
  dsimp only
  rw [if_pos hq, noteBroken]
  split
  · exact ⟨true, rfl⟩
  · exact ⟨broken, rfl⟩

theorem step_end {q : UInt8} (hq : isQuote q) (k braces : Int) (broken : Bool) :
    Nesting.step ⟨k, braces, some q, false, broken⟩ q = ⟨k, braces, none, false, broken⟩ := by
  have hslash : q ≠ octet '\\' := by
    rintro rfl
    exact absurd hq (by decide)
  rw [step]
  dsimp only
  rw [if_neg (by simp), if_neg hslash, if_pos rfl]

/-- **A run over a text that ends outside quotations** counts the parentheses outside them. -/
theorem Outside.clear {s u : Bytes} (h : Outside s u) {k : Int} {n : Nesting} (hn : Clear k n) :
    Clear (k + u.count (octet '(') - u.count (octet ')'))
      (s.foldl Nesting.step n) := by
  induction h generalizing k n with
  | nil => simpa using hn
  | @plain b s u hb _ ih =>
    have hstep := ih (hn.step hb)
    have hcount (c : UInt8) : (b :: u).count c = [b].count c + u.count c := by
      rw [← List.singleton_append, List.count_append]
    rw [List.foldl_cons, hcount, hcount]
    convert hstep using 1
    omega
  | quotation hq hbody _ ih =>
    obtain ⟨braces, broken, rfl⟩ := hn
    obtain ⟨broken', hopen⟩ := step_of_isQuote hq k braces broken
    rw [List.foldl_cons, hopen, List.foldl_append, foldl_step_of_isBody hbody, List.foldl_cons,
      step_end hq]
    exact ih ⟨braces, broken', rfl⟩

/-- **A run that ends outside quotations** has gone over a text that does. -/
theorem exists_outside {s : Bytes} {k : Int} {n : Nesting} (hn : Clear k n)
    (h : (s.foldl step n).quote = none) : ∃ u, Outside s u := by
  -- A quotation is gone over at once, which is why the induction is on the length.
  induction hlen : s.length using Nat.strongRecOn generalizing s k n with
  | _ len ih =>
    cases s with
    | nil => exact ⟨[], .nil⟩
    | cons b s =>
      rw [List.length_cons] at hlen
      rw [List.foldl_cons] at h
      by_cases hb : isQuote b
      · obtain ⟨braces, broken, rfl⟩ := hn
        obtain ⟨broken', hopen⟩ := step_of_isQuote hb k braces broken
        rw [hopen] at h
        cases hclose : Quoted.closing? b s with
        | none =>
          rw [quote_foldl_of_closing? hclose] at h
          exact absurd h (by simp)
        | some y =>
          obtain ⟨body, hbody, -, rfl⟩ := Quoted.exists_isBody_of_closing? hclose
          rw [List.foldl_append, foldl_step_of_isBody hbody, List.foldl_cons, step_end hb] at h
          rw [List.length_append, List.length_cons] at hlen
          obtain ⟨u, hu⟩ := ih y.2.length (by omega) ⟨braces, broken', rfl⟩ h rfl
          exact ⟨u, .quotation hb hbody hu⟩
      · have hnot : isQuote b = false := by simpa using hb
        obtain ⟨u, hu⟩ := ih s.length (by omega) (hn.step hnot) h rfl
        exact ⟨b :: u, .plain hnot hu⟩

/-- **A run finds the parentheses closed** exactly if they are balanced. -/
theorem isParenTop_foldl_iff {s : Bytes} :
    (s.foldl step {}).isParenTop ↔ ParensBalanced s := by
  rw [isParenTop_iff]
  constructor
  · rintro ⟨hquote, hparens⟩
    obtain ⟨u, hu⟩ := exists_outside clear_start hquote
    obtain ⟨braces, broken, hclear⟩ := hu.clear clear_start
    rw [hclear] at hparens
    dsimp only at hparens
    exact ⟨u, hu, by omega⟩
  · rintro ⟨u, hu, hcount⟩
    obtain ⟨braces, broken, hclear⟩ := hu.clear clear_start
    rw [hclear]
    exact ⟨rfl, by dsimp only; omega⟩

/-! ### Where a list is closed -/

/-- The nonempty beginnings of a text are its first octet, and those of the rest behind it. -/
theorem forall_isPrefix_cons {P : Bytes → Prop} {c : UInt8} {s : Bytes} :
    (∀ p, p <+: c :: s → p ≠ [] → P p) ↔ P [c] ∧ ∀ p, p <+: s → p ≠ [] → P (c :: p) := by
  constructor
  · intro h
    refine ⟨h [c] (List.prefix_append [c] s) (List.cons_ne_nil c []), fun p hp _ => ?_⟩
    exact h (c :: p) (List.cons_prefix_cons.mpr ⟨rfl, hp⟩) (List.cons_ne_nil c p)
  · rintro ⟨hfirst, hmore⟩ p hp hne
    obtain ⟨d, p, rfl⟩ := List.exists_cons_of_ne_nil hne
    obtain ⟨rfl, htail⟩ := List.cons_prefix_cons.mp hp
    by_cases hempty : p = []
    · rwa [hempty]
    · exact hmore p htail hempty

/-- **The search stops at the first place** where it finds the parentheses closed. -/
theorem closeFrom?_eq_some_iff {n : Nesting} {s before after : Bytes} :
    closeFrom? n s = some (before, after) ↔
      ∃ b, s = before ++ b :: after ∧ ((before ++ [b]).foldl step n).isParenTop ∧
        ∀ p, p <+: before → p ≠ [] → (p.foldl step n).isParenTop = false := by
  induction s generalizing n before with
  | nil => simp [closeFrom?]
  | cons c s ih =>
    rw [closeFrom?]
    by_cases htop : (n.step c).isParenTop
    · rw [if_pos htop]
      constructor
      · intro h
        obtain ⟨rfl, rfl⟩ : [] = before ∧ s = after := by simpa using h
        exact ⟨c, rfl, htop, fun p hp hne => absurd (List.prefix_nil.mp hp) hne⟩
      · rintro ⟨b, hs, -, hfirst⟩
        cases before with
        | nil =>
          obtain ⟨rfl, rfl⟩ := List.cons.inj hs
          rfl
        | cons d before =>
          obtain ⟨rfl, -⟩ := List.cons.inj hs
          have hnot : (n.step c).isParenTop = false := (forall_isPrefix_cons.mp hfirst).1
          exact absurd htop (by simp [hnot])
    · rw [if_neg htop, Option.map_eq_some_iff]
      constructor
      · rintro ⟨y, hy, heq⟩
        obtain ⟨rfl, rfl⟩ : c :: y.1 = before ∧ y.2 = after := by simpa using heq
        obtain ⟨b, rfl, hclosed, hfirst⟩ := ih.mp hy
        exact ⟨b, rfl, hclosed, forall_isPrefix_cons.mpr ⟨by simpa using htop, hfirst⟩⟩
      · rintro ⟨b, hs, hclosed, hfirst⟩
        cases before with
        | nil =>
          obtain ⟨rfl, rfl⟩ := List.cons.inj hs
          exact absurd hclosed (by simpa using htop)
        | cons d before =>
          obtain ⟨rfl, rfl⟩ := List.cons.inj hs
          have hmore := (forall_isPrefix_cons.mp hfirst).2
          exact ⟨(before, after), ih.mpr ⟨b, rfl, hclosed, hmore⟩, rfl⟩

/-- The search fails exactly if it never finds them closed. -/
theorem closeFrom?_eq_none_iff {n : Nesting} {s : Bytes} : closeFrom? n s = none ↔
    ∀ p, p <+: s → p ≠ [] → (p.foldl step n).isParenTop = false := by
  induction s generalizing n with
  | nil => simp [closeFrom?]
  | cons c s ih =>
    rw [closeFrom?, forall_isPrefix_cons]
    by_cases htop : (n.step c).isParenTop
    · simp [htop]
    · rw [if_neg htop, Option.map_eq_none_iff, ih]
      exact (and_iff_right (by simpa using htop)).symm

theorem neverBalanced_open_iff {s : Bytes} : NeverBalanced (octet '(' :: s) ↔
    ∀ p, p <+: s → p ≠ [] → (p.foldl step (level 1)).isParenTop = false := by
  simp only [NeverBalanced, ← isParenTop_foldl_iff, Bool.not_eq_true]
  rw [forall_isPrefix_cons]
  exact and_iff_right rfl

/-- **A list is closed at the first parenthesis that balances it.** -/
theorem closeFrom?_level_one_iff {s list after : Bytes} :
    closeFrom? (level 1) s = some (list, after) ↔ s = list ++ octet ')' :: after ∧
      NeverBalanced (octet '(' :: list) ∧ ParensBalanced (octet '(' :: (list ++ [octet ')'])) := by
  rw [neverBalanced_open_iff, ← isParenTop_foldl_iff]
  constructor
  · intro h
    have hs := eq_of_closeFrom? (by decide) h
    obtain ⟨b, hb, hclosed, hfirst⟩ := closeFrom?_eq_some_iff.mp h
    obtain rfl : octet ')' = b := by simpa using hs.symm.trans hb
    exact ⟨hs, hfirst, hclosed⟩
  · rintro ⟨hs, hfirst, hclosed⟩
    exact closeFrom?_eq_some_iff.mpr ⟨octet ')', hs, hclosed, hfirst⟩

/-- **A list is not closed** if no beginning of the text is balanced. -/
theorem closeFrom?_level_one_eq_none_iff {s : Bytes} :
    closeFrom? (level 1) s = none ↔ NeverBalanced (octet '(' :: s) := by
  rw [neverBalanced_open_iff, closeFrom?_eq_none_iff]

end Nesting

/-- An attribute list is taken as far as the search for its closing parenthesis goes. -/
theorem AttributeList.take_open (s : Bytes) : take (octet '(' :: s) =
    ((Nesting.closeFrom? (Nesting.level 1) s).map fun y => (some ⟨y.1, true⟩, y.2)).getD
      (some ⟨s, false⟩, []) := by
  have hfirst : Nesting.close? (octet '(' :: s) =
      (Nesting.closeFrom? (Nesting.level 1) s).map fun y => (octet '(' :: y.1, y.2) := rfl
  rw [take, if_pos rfl, hfirst]
  cases Nesting.closeFrom? (Nesting.level 1) s <;> rfl

end LiveMarkup

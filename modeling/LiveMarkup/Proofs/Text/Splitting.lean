import LiveMarkup.Proofs.Text.Nesting
import LiveMarkup.Proofs.Text.Parts

/-!
# Splitting at the top level

Splitting a list, cutting an entry, asking whether an entry is balanced and searching for a closing
parenthesis are four runs of one automaton. They start and stop it at different places: splitting
goes on after a separator with the nesting it has reached, while each part is later run over for
itself. So it has to be known what a run still remembers at a separator. That is only whether some
closing bracket came without its opening one, which makes no difference to the cuts
(`LiveMarkup.Nesting.splitFrom_congr`) and is never forgotten
(`LiveMarkup.Nesting.broken_foldl`).

A text therefore falls into its first part and the rest, which is split anew
(`LiveMarkup.Nesting.split_induction`), and it is balanced if both are
(`LiveMarkup.Nesting.isBalanced_append_cons`). A balanced text between parentheses is run over at a
level of one parenthesis more (`LiveMarkup.Nesting.under`), so the search for the closing one does
not stop inside it. The main statement is `LiveMarkup.Nesting.split_respects_nesting`.
-/

namespace LiveMarkup

namespace Nesting

/-! ### What was broken before -/

/-- A nesting without what was broken before. -/
def bare (n : Nesting) : Nesting := { n with broken := false }

theorem bare_of_not_broken {n : Nesting} (h : n.broken = false) : n.bare = n := by
  rw [bare, ← h]

theorem bare_noteBroken (n : Nesting) : n.noteBroken.bare = n.bare := by
  rw [noteBroken]
  split <;> rfl

/-- **What was broken before makes no difference** to a step. -/
theorem bare_step {n m : Nesting} (h : n.bare = m.bare) (b : UInt8) :
    (n.step b).bare = (m.step b).bare := by
  obtain ⟨parens, braces, quote, escaped, broken⟩ := n
  obtain ⟨parens', braces', quote', escaped', broken'⟩ := m
  simp only [bare, mk.injEq, and_true] at h
  obtain ⟨rfl, rfl, rfl, rfl⟩ := h
  rcases quote with - | q
  · simp only [step]
    split_ifs <;> simp only [bare_noteBroken] <;> rfl
  · simp only [step]
    split_ifs <;> rfl

theorem bare_foldl {n m : Nesting} (h : n.bare = m.bare) (s : Bytes) :
    (s.foldl step n).bare = (s.foldl step m).bare := by
  induction s generalizing n m with
  | nil => exact h
  | cons b s ih => exact ih (bare_step h b)

theorem isTop_congr {n m : Nesting} (h : n.bare = m.bare) : n.isTop = m.isTop :=
  show n.bare.isTop = m.bare.isTop by rw [h]

theorem splitFrom_congr {n m : Nesting} (h : n.bare = m.bare) (sep : UInt8) (s : Bytes) :
    splitFrom sep n s = splitFrom sep m s := by
  induction s generalizing n m with
  | nil => rfl
  | cons b s ih => rw [splitFrom, splitFrom, isTop_congr h, ih h, ih (bare_step h b)]

theorem broken_noteBroken (n : Nesting) :
    n.noteBroken.broken = (n.broken || (n.parens < 0 || n.braces < 0)) := by
  rw [noteBroken]
  split_ifs with h
  · rw [h, Bool.or_true]
  · rw [Bool.not_eq_true] at h
    rw [h, Bool.or_false]

/-- A step forgets nothing that was broken before, and breaks what it would have broken anyway. -/
theorem broken_step (n : Nesting) (b : UInt8) :
    (n.step b).broken = (n.broken || (n.bare.step b).broken) := by
  obtain ⟨parens, braces, quote, escaped, broken⟩ := n
  rcases quote with - | q
  · simp only [step, bare]
    split_ifs <;> simp only [broken_noteBroken, Bool.false_or]
  · simp only [step, bare]
    rcases escaped with - | -
    · split_ifs <;> exact (Bool.or_false _).symm
    · exact (Bool.or_false _).symm

/-- **What was broken before is not forgotten** by a run, and makes no difference to what it breaks
itself. -/
theorem broken_foldl (n : Nesting) (s : Bytes) :
    (s.foldl step n).broken = (n.broken || (s.foldl step n.bare).broken) := by
  induction s generalizing n with
  | nil => exact (Bool.or_false _).symm
  | cons b s ih =>
    have hbare : (n.step b).bare = (n.bare.step b).bare := bare_step (n := n) (m := n.bare) rfl b
    rw [List.foldl_cons, List.foldl_cons, ih (n.step b), ih (n.bare.step b), broken_step, hbare,
      Bool.or_assoc]

/-! ### Closed texts -/

/-- Outside quotations nothing is escaped. -/
theorem escaped_step {n : Nesting} (h : n.quote = none → n.escaped = false) (b : UInt8) :
    (n.step b).quote = none → (n.step b).escaped = false := by
  have hnote (m : Nesting) : m.noteBroken.quote = m.quote ∧ m.noteBroken.escaped = m.escaped := by
    rw [noteBroken]
    split <;> exact ⟨rfl, rfl⟩
  obtain ⟨parens, braces, quote, escaped, broken⟩ := n
  rcases quote with - | q
  · simp only [step]
    split_ifs <;> simp_all
  · simp only [step]
    split_ifs <;> simp_all

/-- **A text is closed**: after it a run is outside quotations, with as many closing as opening
brackets of each kind. -/
def isClosed (s : Bytes) : Bool := (s.foldl step {}).isTop

/-- After a closed text a run is where it started. -/
theorem bare_foldl_of_isClosed {s : Bytes} (h : isClosed s) :
    (s.foldl step {}).bare = bare {} := by
  have hescaped : (s.foldl step {}).quote = none → (s.foldl step {}).escaped = false :=
    List.foldlRecOn (motive := fun n : Nesting => n.quote = none → n.escaped = false) _ _
      (fun _ => rfl) fun n hn b _ => escaped_step hn b
  simp only [isClosed, isTop, Bool.and_eq_true, Option.isNone_iff_eq_none, beq_iff_eq] at h
  obtain ⟨⟨hquote, hparens⟩, hbraces⟩ := h
  rw [bare, hescaped hquote, hquote, hparens, hbraces]
  rfl

/-- A text without quotes and brackets does not move a run. -/
theorem foldl_step_of_avoids {s : Bytes} (h : avoids marks s) : s.foldl step {} = {} := by
  have hcalm : Calm (fun _ _ => false) 0 s := Calm.of_avoids h fun _ _ => rfl
  exact hcalm.returns

theorem isClosed_of_avoids {s : Bytes} (h : avoids marks s) : isClosed s := by
  rw [isClosed, foldl_step_of_avoids h]
  rfl

/-! ### The first part and the rest -/

section Parts

variable {sep : UInt8}

theorem stopsAt_eq_false {n : Nesting} {b : UInt8} (h : ¬(b = sep ∧ n.isTop)) :
    stopsAt sep n b = false := by
  rw [stopsAt, Bool.and_eq_false_iff, decide_eq_false_iff_not, ← Bool.not_eq_true]
  exact not_and_or.mp h

/-- A text that is not cut is one part, and has no separator at its top level. -/
theorem splitFrom_of_cutFrom?_eq_none {n : Nesting} {s : Bytes} (h : cutFrom? sep n s = none) :
    splitFrom sep n s = [s] ∧ passesOver (stopsAt sep) n s := by
  induction s generalizing n with
  | nil => exact ⟨rfl, rfl⟩
  | cons b s ih =>
    rw [cutFrom?] at h
    split_ifs at h with hstop
    obtain ⟨hsplit, hpasses⟩ := ih (Option.map_eq_none_iff.mp h)
    rw [splitFrom, if_neg hstop, hsplit, passesOver, hpasses, stopsAt_eq_false hstop]
    exact ⟨rfl, rfl⟩

/-- **A text is cut behind its first part**, at the top level, and splitting goes on behind the
separator. -/
theorem splitFrom_of_cutFrom? {n : Nesting} {s w r : Bytes} (h : cutFrom? sep n s = some (w, r)) :
    splitFrom sep n s = w :: splitFrom sep (w.foldl step n) r ∧ (w.foldl step n).isTop ∧
      passesOver (stopsAt sep) n w := by
  induction s generalizing n w with
  | nil => exact absurd h (by simp [cutFrom?])
  | cons b s ih =>
    rw [cutFrom?] at h
    split_ifs at h with hstop
    · obtain ⟨rfl, rfl⟩ : [] = w ∧ s = r := by simpa using h
      rw [splitFrom, if_pos hstop]
      exact ⟨rfl, hstop.2, rfl⟩
    · obtain ⟨⟨v, r'⟩, hv, heq⟩ := Option.map_eq_some_iff.mp h
      obtain ⟨rfl, rfl⟩ : b :: v = w ∧ r' = r := by simpa using heq
      obtain ⟨hsplit, htop, hpasses⟩ := ih hv
      rw [splitFrom, if_neg hstop, hsplit, passesOver, hpasses, stopsAt_eq_false hstop]
      exact ⟨rfl, htop, rfl⟩

theorem split_of_cut? {s w r : Bytes} (h : cut? sep s = some (w, r)) :
    split sep s = w :: split sep r ∧ isClosed w ∧ passesOver (stopsAt sep) {} w := by
  obtain ⟨hsplit, htop, hpasses⟩ := splitFrom_of_cutFrom? h
  rw [splitFrom_congr (bare_foldl_of_isClosed htop)] at hsplit
  exact ⟨hsplit, htop, hpasses⟩

/-- **The parts of a text, one after another.** What holds of a text without separators at its top
level, and of a text with one more part in front, holds of every text and its parts. -/
theorem split_induction {P : Bytes → List Bytes → Prop}
    (one : ∀ s, passesOver (stopsAt sep) {} s → P s [s])
    (more : ∀ w r, isClosed w → passesOver (stopsAt sep) {} w → P r (split sep r) →
      P (w ++ sep :: r) (w :: split sep r)) (s : Bytes) : P s (split sep s) := by
  induction hlen : s.length using Nat.strongRecOn generalizing s with
  | _ len ih =>
    rcases hcut : cut? sep s with - | ⟨w, r⟩
    · obtain ⟨hsplit, hpasses⟩ := splitFrom_of_cutFrom?_eq_none hcut
      rw [split, hsplit]
      exact one s hpasses
    · obtain ⟨hsplit, hclosed, hpasses⟩ := split_of_cut? hcut
      obtain rfl := eq_of_cutFrom? hcut
      rw [List.length_append, List.length_cons] at hlen
      rw [hsplit]
      exact more w r hclosed hpasses (ih r.length (by omega) r rfl)

/-- **Separators are found at the top level only**: every part but the last is closed. -/
theorem isClosed_of_mem_dropLast_split (s : Bytes) : ∀ w ∈ (split sep s).dropLast, isClosed w := by
  refine split_induction (P := fun _ ws => ∀ w ∈ ws.dropLast, isClosed w) (fun s _ => by simp)
    (fun w r hw _ ih => ?_) s
  have hne : split sep r ≠ [] := splitFrom_ne_nil sep {} r
  rw [List.dropLast_cons_of_ne_nil hne, List.forall_mem_cons]
  exact ⟨hw, ih⟩

/-- **All separators at the top level are found**: no part has one. -/
theorem passesOver_of_mem_split (s : Bytes) :
    ∀ w ∈ split sep s, passesOver (stopsAt sep) {} w := by
  refine split_induction (P := fun _ ws => ∀ w ∈ ws, passesOver (stopsAt sep) {} w)
    (fun s hs => by rwa [List.forall_mem_singleton]) (fun w r _ hw ih => ?_) s
  rw [List.forall_mem_cons]
  exact ⟨hw, ih⟩

/-- A text is cut exactly if it has two parts or more. -/
theorem isSome_cut?_iff {s : Bytes} : (cut? sep s).isSome ↔ 2 ≤ (split sep s).length := by
  rcases hcut : cut? sep s with - | ⟨w, r⟩
  · rw [split, (splitFrom_of_cutFrom?_eq_none hcut).1]
    simp
  · have hrest := List.length_pos_of_ne_nil (splitFrom_ne_nil sep {} r)
    rw [(split_of_cut? hcut).1, List.length_cons, split]
    simp only [Option.isSome_some, true_iff]
    omega

/-! ### Balanced texts -/

theorem isBalanced_eq (s : Bytes) : isBalanced s = (isClosed s && !(s.foldl step {}).broken) := rfl

/-- **A text is balanced if its first part and the rest are.** The separator itself must be none of
the octets that a run looks at. -/
theorem isBalanced_append_cons (hsep : sep ∉ marks) {w : Bytes} (hw : isClosed w) (r : Bytes) :
    isBalanced (w ++ sep :: r) = (isBalanced w && isBalanced r) := by
  have hbare := bare_foldl_of_isClosed hw
  have hstep : step {} sep = {} :=
    show (level 0).step sep = level 0 from step_level_of_notMem hsep
  -- Behind the separator the run knows no more than whether something is broken.
  have hbehind : ((w.foldl step {}).step sep).bare = bare {} := by rw [bare_step hbare, hstep]
  have hsame : ((w.foldl step {}).step sep).broken = (w.foldl step {}).broken := by
    rw [broken_step, hbare]
    exact (congrArg _ (congrArg broken hstep)).trans (Bool.or_false _)
  have hclosed : isClosed (w ++ sep :: r) = isClosed r := by
    rw [isClosed, List.foldl_append, List.foldl_cons, isTop_congr (bare_foldl hbehind r), isClosed]
  have hbroken : ((w ++ sep :: r).foldl step {}).broken =
      ((w.foldl step {}).broken || (r.foldl step {}).broken) := by
    rw [List.foldl_append, List.foldl_cons, broken_foldl, hsame, hbehind]
    rfl
  rw [isBalanced_eq, hclosed, hbroken, isBalanced_eq, hw, isBalanced_eq, Bool.not_or,
    Bool.true_and, Bool.and_left_comm]

/-- **A text is balanced exactly if all its parts are.** -/
theorem isBalanced_iff_forall_mem_split (hsep : sep ∉ marks) (s : Bytes) :
    isBalanced s ↔ ∀ w ∈ split sep s, isBalanced w := by
  refine split_induction (P := fun s ws => isBalanced s ↔ ∀ w ∈ ws, isBalanced w)
    (fun s _ => by rw [List.forall_mem_singleton]) (fun w r hw _ ih => ?_) s
  rw [isBalanced_append_cons hsep hw, Bool.and_eq_true, List.forall_mem_cons, ih]

end Parts

/-! ### Between parentheses -/

/-- A nesting with one parenthesis more open. -/
def under (n : Nesting) : Nesting := { n with parens := n.parens + 1 }

theorem nonneg_of_noteBroken {n : Nesting} (h : n.noteBroken.broken = false) :
    n.noteBroken = n ∧ 0 ≤ n.parens ∧ n.under.noteBroken = n.under := by
  rw [broken_noteBroken, Bool.or_eq_false_iff, Bool.or_eq_false_iff, decide_eq_false_iff_not,
    decide_eq_false_iff_not] at h
  obtain ⟨-, hparens, hbraces⟩ := h
  have hunder : ¬n.under.parens < 0 := by
    dsimp only [under]
    omega
  have hsame {m : Nesting} (hp : ¬m.parens < 0) (hb : ¬m.braces < 0) : m.noteBroken = m := by
    rw [noteBroken, if_neg (by simp [hp, hb])]
  exact ⟨hsame hparens hbraces, by omega, hsame hunder hbraces⟩

/-- **A step that breaks nothing** is the same under one parenthesis more. -/
theorem step_under {n : Nesting} {b : UInt8} (hn : 0 ≤ n.parens) (h : (n.step b).broken = false) :
    n.under.step b = (n.step b).under ∧ 0 ≤ (n.step b).parens := by
  obtain ⟨parens, braces, quote, escaped, broken⟩ := n
  rcases quote with - | q
  · simp only [step, under] at h ⊢
    split_ifs at h ⊢
    all_goals
      obtain ⟨hsame, hnonneg, hunder⟩ := nonneg_of_noteBroken h
      rw [hsame]
      refine ⟨?_, hnonneg⟩
    · exact hunder
    · exact hunder
    · -- The parenthesis that is closed is another one than that which was added.
      rw [show parens + 1 - 1 = parens - 1 + 1 by omega]
      exact hunder
    · exact hunder
    · exact hunder
    · exact hunder
  · rcases escaped with - | -
    · simp only [step, under]
      split_ifs <;> exact ⟨rfl, hn⟩
    · exact ⟨rfl, hn⟩

/-- **A run that breaks nothing** does not stop under one parenthesis more. -/
theorem passesOver_under {n : Nesting} (hn : 0 ≤ n.parens) {s : Bytes}
    (h : (s.foldl step n).broken = false) :
    passesOver stopsClose n.under s ∧ s.foldl step n.under = (s.foldl step n).under := by
  induction s generalizing n with
  | nil => exact ⟨rfl, rfl⟩
  | cons b s ih =>
    have hfirst : (n.step b).broken = false := by
      rw [List.foldl_cons, broken_foldl, Bool.or_eq_false_iff] at h
      exact h.1
    obtain ⟨hstep, hnonneg⟩ := step_under hn hfirst
    obtain ⟨hpasses, hrun⟩ := ih hnonneg h
    have hstop : stopsClose n.under b = false := by
      have hne : ¬(n.step b).parens + 1 = 0 := by omega
      rw [stopsClose, hstep, isParenTop]
      simp [under, hne]
    rw [passesOver, hstop, hstep, hpasses, List.foldl_cons, List.foldl_cons, hstep, hrun]
    exact ⟨rfl, rfl⟩

/-- **A balanced text is calm** for the search for a closing parenthesis. -/
theorem calm_of_isBalanced {s : Bytes} (h : isBalanced s) : Calm stopsClose 1 s := by
  rw [isBalanced_eq, Bool.and_eq_true, Bool.not_eq_true'] at h
  obtain ⟨hclosed, hbroken⟩ := h
  have hback : s.foldl step {} = {} := by
    rw [← bare_of_not_broken hbroken, bare_foldl_of_isClosed hclosed]
    rfl
  obtain ⟨hpasses, hrun⟩ := passesOver_under (n := {}) (Int.le_refl 0) hbroken
  rw [hback] at hrun
  exact ⟨hpasses, hrun⟩

/-- **Splitting at the top level loses nothing and respects nesting.** The parts of a text joined by
the separator are the text; all but the last are closed, and none has a separator at its own top
level. Cutting finds a separator exactly if there are two parts or more, and gives the first part
and the rest. A text is balanced exactly if its parts are, unless the separator is a quote or a
bracket itself; and a balanced text between parentheses ends where the closing one is found. -/
theorem split_respects_nesting (sep : UInt8) (s : Bytes) :
    List.intercalate [sep] (split sep s) = s ∧
    (∀ w ∈ (split sep s).dropLast, isClosed w) ∧
    (∀ w ∈ split sep s, passesOver (stopsAt sep) {} w) ∧
    ((cut? sep s).isSome ↔ 2 ≤ (split sep s).length) ∧
    (∀ before after, cut? sep s = some (before, after) →
      (split sep s).head? = some before ∧ s = before ++ sep :: after) ∧
    (sep ∉ marks → (isBalanced s ↔ ∀ w ∈ split sep s, isBalanced w)) ∧
    (isBalanced s → ∀ r : Bytes,
      close? (octet '(' :: (s ++ octet ')' :: r)) = some (octet '(' :: s, r)) := by
  refine ⟨intercalate_splitFrom sep {} s, isClosed_of_mem_dropLast_split s,
    passesOver_of_mem_split s, isSome_cut?_iff, fun before after h => ?_,
    fun hsep => isBalanced_iff_forall_mem_split hsep s, fun h r => ?_⟩
  · rw [(split_of_cut? h).1]
    exact ⟨rfl, eq_of_cutFrom? h⟩
  · exact close?_of_calm (calm_of_isBalanced h) r

/-- Commas in a quotation behind an escaped quote, in braces and in parentheses, and one at the top
level. -/
theorem split_respects_nesting_commas :
    isBalanced (utf8 "f(\"\\\",)\", \x7b,\x7d), g") ∧ octet ',' ∉ marks ∧
    split (octet ',') (utf8 "f(\"\\\",)\", \x7b,\x7d), g") =
      [utf8 "f(\"\\\",)\", \x7b,\x7d)", utf8 " g"] ∧
    (∀ w ∈ split (octet ',') (utf8 "f(\"\\\",)\", \x7b,\x7d), g"), isBalanced w) ∧
    close? (octet '(' :: (utf8 "f(\"\\\",)\", \x7b,\x7d), g" ++ octet ')' :: utf8 "'\\")) =
      some (octet '(' :: utf8 "f(\"\\\",)\", \x7b,\x7d), g", utf8 "'\\") := by
  have hbalanced : isBalanced (utf8 "f(\"\\\",)\", \x7b,\x7d), g") := by decide
  have hsep : octet ',' ∉ marks := by decide
  obtain ⟨-, -, -, -, -, hparts, hclose⟩ :=
    split_respects_nesting (octet ',') (utf8 "f(\"\\\",)\", \x7b,\x7d), g")
  exact ⟨hbalanced, hsep, by decide, (hparts hsep).mp hbalanced, hclose hbalanced _⟩

end Nesting

end LiveMarkup

import LiveMarkup.Proofs.Source.Words
import LiveMarkup.Text.Nesting
import LiveMarkup.Text.Quoted

/-!
# Texts that brackets and quotes leave alone

Splitting a list, cutting an entry and searching for a closing parenthesis are runs of one automaton
that differ in where they stop. A text is *calm* for one of them, `LiveMarkup.Nesting.Calm`, if the
run goes over it from a level of parentheses to the same level without stopping. Calm texts can be
put one after another, so it is enough to know two kinds of them: texts without any quotes and
brackets, and literals, whatever they hold.

What a run does with a calm text is then one lemma for each of the three:
`LiveMarkup.Nesting.close?_of_calm`, `LiveMarkup.Nesting.cut?_of_calm` and
`LiveMarkup.Nesting.splitFrom_intercalate`.
-/

namespace LiveMarkup

namespace Nesting

/-! ### The states of a run -/

/-- Outside quotations, with some parentheses open. -/
def level (parens : Nat) : Nesting := { parens }

/-- Inside a quotation, with some parentheses open. -/
def quoted (parens : Nat) (q : UInt8) (escaped : Bool) : Nesting :=
  { parens, quote := some q, escaped }

/-- The octets that a run looks at outside quotations. -/
def marks : List UInt8 :=
  [octet '"', octet '\'', 0x60, octet '(', octet ')', 0x7b, 0x7d]

section Steps

variable {parens : Nat} {q b : UInt8}

theorem noteBroken_level (parens : Nat) : noteBroken (level parens) = level parens := by
  have hnot : ¬(parens : Int) < 0 := by omega
  simp [noteBroken, level, hnot]

theorem step_level_of_notMem (h : b ∉ marks) : (level parens).step b = level parens := by
  have hne {c : UInt8} (hc : c ∈ marks) : b ≠ c := fun hbc => h (hbc ▸ hc)
  have hquote : isQuote b = false := by
    simp [isQuote, hne (c := octet '"') (by decide), hne (c := octet '\'') (by decide),
      hne (c := 0x60) (by decide)]
  have hnote := noteBroken_level parens
  rw [step]
  dsimp only [level] at hnote ⊢
  rw [hquote, if_neg (by simp), if_neg (hne (by decide)), if_neg (hne (by decide)),
    if_neg (hne (by decide)), if_neg (hne (by decide))]
  exact hnote

theorem step_level_quote (h : isQuote q) : (level parens).step q = quoted parens q false := by
  have hnot : ¬(parens : Int) < 0 := by omega
  simp [step, level, quoted, noteBroken, h, hnot]

theorem step_level_close : (level (parens + 1)).step (octet ')') = level parens := by
  have hparens : ((parens + 1 : Nat) : Int) - 1 = parens := by omega
  have hlevel : ({ parens := ((parens + 1 : Nat) : Int) - 1 } : Nesting) = level parens := by
    rw [level, hparens]
  calc (level (parens + 1)).step (octet ')')
      = noteBroken { parens := ((parens + 1 : Nat) : Int) - 1 } := rfl
    _ = level parens := by rw [hlevel, noteBroken_level]

theorem step_quoted_escaped : (quoted parens q true).step b = quoted parens q false := rfl

theorem step_quoted_backslash :
    (quoted parens q false).step (octet '\\') = quoted parens q true := rfl

theorem step_quoted_other (hb : b ≠ octet '\\') (hbq : b ≠ q) :
    (quoted parens q false).step b = quoted parens q false := by
  simp [step, quoted, hb, hbq]

theorem step_quoted_close (hq : q ≠ octet '\\') :
    (quoted parens q false).step q = level parens := by
  simp [step, quoted, level, hq]

end Steps

/-! ### Calm texts -/

/-- Whether a run goes over a text without stopping. -/
def passesOver (stop : Nesting → UInt8 → Bool) (n : Nesting) : Bytes → Bool
  | [] => true
  | b :: s => !stop n b && passesOver stop (n.step b) s

theorem passesOver_append (stop : Nesting → UInt8 → Bool) (n : Nesting) (s t : Bytes) :
    passesOver stop n (s ++ t) = (passesOver stop n s && passesOver stop (s.foldl step n) t) := by
  induction s generalizing n with
  | nil => rfl
  | cons b s ih =>
    rw [List.cons_append, passesOver, ih, passesOver, Bool.and_assoc]
    rfl

/-- **A text is calm** for a run: the run goes over it without stopping, and is then where it was
before. -/
structure Calm (stop : Nesting → UInt8 → Bool) (parens : Nat) (s : Bytes) : Prop where
  passes : passesOver stop (level parens) s
  returns : s.foldl step (level parens) = level parens

namespace Calm

variable {stop : Nesting → UInt8 → Bool} {parens : Nat} {s t : Bytes}

theorem nil : Calm stop parens [] := ⟨rfl, rfl⟩

theorem append (hs : Calm stop parens s) (ht : Calm stop parens t) : Calm stop parens (s ++ t) where
  passes := by rw [passesOver_append, hs.passes, hs.returns, ht.passes, Bool.and_self]
  returns := by rw [List.foldl_append, hs.returns, ht.returns]

/-- A text without quotes and brackets is calm, if the run stops at none of its octets. -/
theorem of_avoids (hs : avoids marks s) (hstop : ∀ b ∈ s, stop (level parens) b = false) :
    Calm stop parens s := by
  rw [avoids_iff] at hs
  induction s with
  | nil => exact nil
  | cons b s ih =>
    rw [List.forall_mem_cons] at hs hstop
    have hstep : (level parens).step b = level parens := step_level_of_notMem hs.1
    have ih' := ih hs.2 hstop.2
    constructor
    · rw [Nesting.passesOver, hstop.1, hstep, ih'.passes]
      rfl
    · rw [List.foldl_cons, hstep, ih'.returns]

/-- **A literal is calm** for a run that does not stop inside quotations, whatever its text is. -/
theorem literal {q : UInt8} (hq : isQuote q) (hslash : q ≠ octet '\\')
    (hopen : stop (level parens) q = false)
    (hinside : ∀ escaped b, stop (quoted parens q escaped) b = false) (t : Bytes) :
    Calm stop parens (Quoted.literal q t) := by
  -- Inside the quotation, the run comes to its end from any place outside an escape.
  have hrest :
      Nesting.passesOver stop (quoted parens q false) (Quoted.escapeOnly q t ++ [q]) = true ∧
      (Quoted.escapeOnly q t ++ [q]).foldl step (quoted parens q false) = level parens := by
    induction t with
    | nil =>
      refine ⟨?_, step_quoted_close hslash⟩
      rw [Quoted.escapeOnly, List.flatMap_nil, List.nil_append, Nesting.passesOver, hinside]
      rfl
    | cons b t ih =>
      rw [Quoted.escapeOnly, List.flatMap_cons, ← Quoted.escapeOnly, List.append_assoc]
      split
      · rw [List.cons_append, List.singleton_append, Nesting.passesOver, hinside,
          step_quoted_backslash, Nesting.passesOver, hinside, step_quoted_escaped, List.foldl_cons,
          step_quoted_backslash, List.foldl_cons, step_quoted_escaped]
        exact ih
      · rename_i hb
        rw [not_or] at hb
        rw [List.singleton_append, Nesting.passesOver, hinside, step_quoted_other hb.2 hb.1,
          List.foldl_cons, step_quoted_other hb.2 hb.1]
        exact ih
  constructor
  · rw [Quoted.literal, Nesting.passesOver, hopen, step_level_quote hq, hrest.1]
    rfl
  · rw [Quoted.literal, List.foldl_cons, step_level_quote hq, hrest.2]

end Calm

/-! ### Closing -/

/-- Where the search for a closing parenthesis stops. -/
def stopsClose (n : Nesting) (b : UInt8) : Bool := (n.step b).isParenTop

theorem stopsClose_of_notMem {b : UInt8} (h : b ∉ marks) : stopsClose (level 1) b = false := by
  rw [stopsClose, step_level_of_notMem h]
  rfl

theorem stopsClose_quote {q : UInt8} (h : isQuote q) : stopsClose (level 1) q = false := by
  rw [stopsClose, step_level_quote h]
  rfl

/-- The search does not stop inside a quotation, nor at the quote that ends it. -/
theorem stopsClose_quoted {q : UInt8} (hslash : q ≠ octet '\\') (escaped : Bool) (b : UInt8) :
    stopsClose (quoted 1 q escaped) b = false := by
  rw [stopsClose]
  cases escaped with
  | true => rfl
  | false =>
    rcases eq_or_ne b (octet '\\') with rfl | hb
    · rfl
    rcases eq_or_ne b q with rfl | hbq
    · rw [step_quoted_close hslash]
      rfl
    · rw [step_quoted_other hb hbq]
      rfl

theorem closeFrom?_append {n : Nesting} {s : Bytes} (h : passesOver stopsClose n s) (r : Bytes) :
    closeFrom? n (s ++ r) = (closeFrom? (s.foldl step n) r).map fun y => (s ++ y.1, y.2) := by
  induction s generalizing n with
  | nil => exact (Option.map_id' (x := closeFrom? n r)).symm
  | cons b s ih =>
    rw [passesOver, Bool.and_eq_true] at h
    have hstop : (n.step b).isParenTop = false := by simpa [stopsClose] using h.1
    rw [List.cons_append, closeFrom?, hstop, if_neg (by simp), ih h.2, Option.map_map]
    rfl

/-- **The parenthesis that closes a calm text is found.** -/
theorem close?_of_calm {s : Bytes} (h : Calm stopsClose 1 s) (r : Bytes) :
    close? (octet '(' :: (s ++ octet ')' :: r)) = some (octet '(' :: s, r) := by
  have hlast : closeFrom? (level 1) (octet ')' :: r) = some ([], r) := by
    have htop : ((level 1).step (octet ')')).isParenTop = true := by
      rw [step_level_close]
      rfl
    rw [closeFrom?, if_pos htop]
  have hfirst : close? (octet '(' :: (s ++ octet ')' :: r)) =
      (closeFrom? (level 1) (s ++ octet ')' :: r)).map fun y => (octet '(' :: y.1, y.2) := rfl
  rw [hfirst, closeFrom?_append h.passes, h.returns, hlast]
  simp

/-! ### Cutting and splitting -/

/-- Where a run stops at a separator. -/
def stopsAt (sep : UInt8) (n : Nesting) (b : UInt8) : Bool := b = sep && n.isTop

section Separator

variable {sep : UInt8} {s : Bytes}

theorem not_of_stopsAt {n : Nesting} {b : UInt8} (h : stopsAt sep n b = false) :
    ¬(b = sep ∧ n.isTop) := by
  simpa [stopsAt] using h

theorem cutFrom?_append {n : Nesting} (h : passesOver (stopsAt sep) n s) (r : Bytes) :
    cutFrom? sep n (s ++ r) = (cutFrom? sep (s.foldl step n) r).map fun y => (s ++ y.1, y.2) := by
  induction s generalizing n with
  | nil => exact (Option.map_id' (x := cutFrom? sep n r)).symm
  | cons b s ih =>
    rw [passesOver, Bool.and_eq_true] at h
    rw [List.cons_append, cutFrom?, if_neg (not_of_stopsAt (by simpa using h.1)), ih h.2,
      Option.map_map]
    rfl

/-- **A calm text is cut off** at the separator after it. -/
theorem cut?_of_calm (h : Calm (stopsAt sep) 0 s) (r : Bytes) :
    cut? sep (s ++ sep :: r) = some (s, r) := by
  have hsep : cutFrom? sep (level 0) (sep :: r) = some ([], r) := by
    rw [cutFrom?, if_pos ⟨rfl, rfl⟩]
  have hcut : cut? sep (s ++ sep :: r) = cutFrom? sep (level 0) (s ++ sep :: r) := rfl
  rw [hcut, cutFrom?_append h.passes, h.returns, hsep]
  simp

theorem splitFrom_append {n : Nesting} (h : passesOver (stopsAt sep) n s) {r w : Bytes}
    {ws : List Bytes} (hr : splitFrom sep (s.foldl step n) r = w :: ws) :
    splitFrom sep n (s ++ r) = (s ++ w) :: ws := by
  induction s generalizing n with
  | nil => exact hr
  | cons b s ih =>
    rw [passesOver, Bool.and_eq_true] at h
    rw [List.cons_append, splitFrom, if_neg (not_of_stopsAt (by simpa using h.1)), ih h.2 hr]
    rfl

/-- **A list of calm texts is split** where they are joined; what stands in front of the list goes
to its first entry, and the space after a separator to the entry behind it. -/
theorem splitFrom_intercalate (hspace : Calm (stopsAt sep) 0 [octet ' ']) {before w : Bytes}
    {ws : List Bytes} (hbefore : Calm (stopsAt sep) 0 before)
    (hws : ∀ v ∈ w :: ws, Calm (stopsAt sep) 0 v) :
    splitFrom sep (level 0) (before ++ List.intercalate [sep, octet ' '] (w :: ws)) =
      (before ++ w) :: ws.map (octet ' ' :: ·) := by
  induction ws generalizing before w with
  | nil =>
    have hw := hbefore.append (hws w List.mem_cons_self)
    have hsplit : splitFrom sep (level 0) (before ++ w ++ []) = [before ++ w ++ []] :=
      splitFrom_append hw.passes rfl
    rw [List.append_nil] at hsplit
    rwa [List.intercalate_singleton]
  | cons v ws ih =>
    have hw := hbefore.append (hws w List.mem_cons_self)
    have htail := ih hspace fun u hu => hws u (List.mem_cons_of_mem w hu)
    have hsep : splitFrom sep ((before ++ w).foldl step (level 0))
        (sep :: ([octet ' '] ++ List.intercalate [sep, octet ' '] (v :: ws))) =
          [] :: ([octet ' '] ++ v) :: ws.map (octet ' ' :: ·) := by
      rw [hw.returns, splitFrom, if_pos ⟨rfl, rfl⟩, htail]
    have hjoin : before ++ List.intercalate [sep, octet ' '] (w :: v :: ws) =
        before ++ w ++ sep :: ([octet ' '] ++ List.intercalate [sep, octet ' '] (v :: ws)) := by
      rw [List.intercalate_cons_cons]
      simp
    rw [hjoin, splitFrom_append hw.passes hsep, List.append_nil]
    rfl

end Separator

end Nesting

end LiveMarkup

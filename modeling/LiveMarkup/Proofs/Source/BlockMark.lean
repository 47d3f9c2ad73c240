import LiveMarkup.Proofs.Tree.Printing
import Mathlib.Data.List.TakeWhile

/-!
# The block mark of a tag line

A tag line may end in a block mark, an opening brace that may be closed at once. Without its mark
the line is still a tag line, with the same parts (`LiveMarkup.LineKind.ofText_of_append_mark`).

The parts of a tag line are scanned one after another, and what follows a part is left over
(`LiveMarkup.TagLine.Front`). A mark, with the gap in front of it (`LiveMarkup.MarkTail`), can
neither go on with a word nor end a list or a literal, so each part is scanned alike with the mark
behind it and without; only the gaps between the parts may swallow some of it. In the end nothing
but the mark can be left over for `LiveMarkup.takeBlock`.

What is scanned ends in an octet of ASCII (`LiveMarkup.TagLine.Front.endsSolid`), so there is no
white space of another script in front of a mark.
-/

namespace LiveMarkup

/-! ### Where a list ends -/

namespace Nesting

@[simp] theorem parens_noteBroken (n : Nesting) : n.noteBroken.parens = n.parens := by
  rw [noteBroken]
  split <;> rfl

@[simp] theorem quote_noteBroken (n : Nesting) : n.noteBroken.quote = n.quote := by
  rw [noteBroken]
  split <;> rfl

/-- Only parentheses outside quotations change how many are open. -/
theorem parens_step (n : Nesting) (b : UInt8) : (n.step b).parens = n.parens ∨
    (n.step b).parens = n.parens + 1 ∨
    (b = octet ')' ∧ (n.step b).parens = n.parens - 1 ∧ (n.step b).quote = none) := by
  rw [step]
  cases hq : n.quote with
  | some q =>
    left
    dsimp only
    split
    · rfl
    · split
      · rfl
      · split <;> rfl
  | none =>
    dsimp only
    by_cases hquote : isQuote b
    · simp [hquote]
    by_cases hopen : b = octet '('
    · rw [if_neg hquote, if_pos hopen]
      exact Or.inr (Or.inl (parens_noteBroken _))
    by_cases hclose : b = octet ')'
    · rw [if_neg hquote, if_neg hopen, if_pos hclose]
      exact Or.inr (Or.inr ⟨hclose, parens_noteBroken _, quote_noteBroken _⟩)
    · rw [if_neg hquote, if_neg hopen, if_neg hclose]
      left
      split
      · exact parens_noteBroken _
      · split <;> exact parens_noteBroken _

theorem isParenTop_iff {n : Nesting} : n.isParenTop ↔ n.quote = none ∧ n.parens = 0 := by
  rw [isParenTop, Bool.and_eq_true, Option.isNone_iff_eq_none, beq_iff_eq]

/-- While some parenthesis is open, only a closing one ends the search, and otherwise some stays
open. -/
theorem parens_step_cases {n : Nesting} (hn : 1 ≤ n.parens) (b : UInt8) :
    ((n.step b).isParenTop ∧ b = octet ')') ∨
      ((n.step b).isParenTop = false ∧ 1 ≤ (n.step b).parens) := by
  rcases parens_step n b with h | h | ⟨hb, h, hq⟩
  · refine Or.inr ⟨Bool.eq_false_iff.mpr fun htop => ?_, by omega⟩
    have hzero := (isParenTop_iff.mp htop).2
    omega
  · refine Or.inr ⟨Bool.eq_false_iff.mpr fun htop => ?_, by omega⟩
    have hzero := (isParenTop_iff.mp htop).2
    omega
  · by_cases hone : n.parens = 1
    · exact Or.inl ⟨isParenTop_iff.mpr ⟨hq, by omega⟩, hb⟩
    · refine Or.inr ⟨Bool.eq_false_iff.mpr fun htop => ?_, by omega⟩
      have hzero := (isParenTop_iff.mp htop).2
      omega

/-- **The search ends at a closing parenthesis.** -/
theorem eq_of_closeFrom? {n : Nesting} (hn : 1 ≤ n.parens) {s before after : Bytes}
    (h : closeFrom? n s = some (before, after)) : s = before ++ octet ')' :: after := by
  induction s generalizing n before with
  | nil => exact absurd h (by simp [closeFrom?])
  | cons b s ih =>
    rw [closeFrom?] at h
    rcases parens_step_cases hn b with ⟨htop, rfl⟩ | ⟨htop, hstep⟩
    · rw [if_pos htop] at h
      obtain ⟨rfl, rfl⟩ : [] = before ∧ s = after := by simpa using h
      rfl
    · rw [if_neg (by simp [htop])] at h
      obtain ⟨y, hy, heq⟩ := Option.map_eq_some_iff.mp h
      obtain ⟨rfl, rfl⟩ : b :: y.1 = before ∧ y.2 = after := by simpa using heq
      rw [List.cons_append, ← ih hstep hy]

/-- What has no closing parenthesis does not end the search, and does not change where it ends. -/
theorem closeFrom?_append_of_notMem {m : Bytes} (hm : octet ')' ∉ m) {n : Nesting}
    (hn : 1 ≤ n.parens) (s : Bytes) :
    closeFrom? n (s ++ m) = (closeFrom? n s).map fun y => (y.1, y.2 ++ m) := by
  induction s generalizing n with
  | nil =>
    rw [List.nil_append]
    cases h : closeFrom? n m with
    | none => rfl
    | some y => exact absurd (by simp) (eq_of_closeFrom? hn h ▸ hm)
  | cons b s ih =>
    rw [List.cons_append, closeFrom?, closeFrom?]
    rcases parens_step_cases hn b with ⟨htop, -⟩ | ⟨htop, hstep⟩
    · rw [if_pos htop, if_pos htop]
      rfl
    · rw [if_neg (by simp [htop]), if_neg (by simp [htop]), ih hstep, Option.map_map,
        Option.map_map]
      rfl

end Nesting

/-! ### Where a literal ends -/

namespace Quoted

/-- **A literal ends at its quote.** -/
theorem eq_of_closing? {q : UInt8} {s l r : Bytes} (h : closing? q s = some (l, r)) :
    s = l ++ r ∧ l.getLast? = some q := by
  fun_induction closing? q s generalizing l with
  | case1 => exact absurd h (by simp)
  | case2 b hb =>
    obtain ⟨rfl, rfl⟩ : [b] = l ∧ [] = r := by simpa using h
    exact ⟨rfl, by simp [hb.2]⟩
  | case3 b hb => exact absurd h (by simp)
  | case4 c s ih =>
    obtain ⟨y, hy, heq⟩ := Option.map_eq_some_iff.mp h
    obtain ⟨rfl, rfl⟩ : octet '\\' :: c :: y.1 = l ∧ y.2 = r := by simpa using heq
    obtain ⟨hs, hlast⟩ := ih hy
    refine ⟨by rw [hs, List.cons_append, List.cons_append], ?_⟩
    rw [List.getLast?_cons, List.getLast?_cons, hlast]
    rfl
  | case5 c s hq =>
    obtain ⟨rfl, rfl⟩ : [q] = l ∧ c :: s = r := by simpa using h
    exact ⟨rfl, rfl⟩
  | case6 b c s hb hq ih =>
    obtain ⟨y, hy, heq⟩ := Option.map_eq_some_iff.mp h
    obtain ⟨rfl, rfl⟩ : b :: y.1 = l ∧ y.2 = r := by simpa using heq
    obtain ⟨hs, hlast⟩ := ih hy
    refine ⟨by rw [hs, List.cons_append], ?_⟩
    rw [List.getLast?_cons, hlast]
    rfl

/-- What does not have the quote does not end a literal, and does not change where it ends. -/
theorem closing?_append_of_notMem {q : UInt8} {m : Bytes} (hm : q ∉ m) (s : Bytes) :
    closing? q (s ++ m) = (closing? q s).map fun y => (y.1, y.2 ++ m) := by
  have hnone (t : Bytes) (ht : t <:+ m) : closing? q t = none := by
    cases h : closing? q t with
    | none => rfl
    | some y =>
      obtain ⟨heq, hlast⟩ := eq_of_closing? h
      refine absurd (ht.subset ?_) hm
      rw [heq]
      exact List.mem_append_left _ (List.mem_of_getLast? hlast)
  fun_induction closing? q s with
  | case1 => exact hnone m (List.suffix_refl m)
  | case2 b hb =>
    obtain ⟨hslash, rfl⟩ := hb
    exact closing?_self hslash m
  | case3 b hb =>
    rw [List.singleton_append]
    by_cases hslash : b = octet '\\'
    · subst hslash
      cases m with
      | nil => simp [closing?]
      | cons c m =>
        rw [closing?_escaped, hnone m (List.suffix_cons c m)]
        rfl
    · have hbq : b ≠ q := fun hbq => hb ⟨hslash, hbq⟩
      rw [closing?_other hslash hbq, hnone m (List.suffix_refl m)]
      rfl
  | case4 c s ih =>
    rw [List.cons_append, List.cons_append, closing?_escaped, ih, Option.map_map, Option.map_map]
    rfl
  | case5 c s hslash =>
    rw [List.cons_append, closing?_self hslash]
    rfl
  | case6 b c s hb hq ih =>
    rw [List.cons_append, closing?_other hb hq, ih, Option.map_map, Option.map_map]
    rfl

end Quoted

/-! ### Parts that are missing -/

theorem Shorthand.takeAll?_of_head? {s : Bytes} (hdot : s.head?.any (· == octet '.') = false)
    (hhash : s.head?.any (· == octet '#') = false) : takeAll? s = some ([], s) := by
  cases s with
  | nil => rw [takeAll?]
  | cons b s =>
    have hmark : ofMark? b (s.takeWhile isNameOctet) = none := by
      rw [ofMark?, if_neg (by simpa using hdot), if_neg (by simpa using hhash)]
    rw [takeAll?, hmark]

theorem AttributeList.take_of_head? {s : Bytes} (h : s.head?.any (· == octet '(') = false) :
    take s = (none, s) := by
  cases s with
  | nil => rfl
  | cons b s => rw [take, if_neg (by simpa using h)]

theorem takeWord_of_head? {first : UInt8 → Bool} (more : UInt8 → Bool) {s : Bytes}
    (h : s.head?.any first = false) : takeWord first more s = ([], s) := by
  cases s with
  | nil => rfl
  | cons b s => rw [takeWord, if_neg (by simpa using h)]

theorem takeText?_of_head? {s : Bytes} (h : s.head?.any Quoted.isQuote = false) :
    takeText? s = some (none, s) := by
  rw [takeText?, if_neg (by simp [h])]

theorem takeBind_of_head? {s : Bytes} (h : s.head?.any isBindingStart = false) :
    takeBind s = (none, s) := by
  rw [takeBind, takeBinding, takeWord_of_head? isIdentOctet h]
  rfl

/-! ### Marks -/

/-- The octets of a block mark and of the gaps around it. -/
def markOctets : List UInt8 := [octet ' ', octet '\t', octet '\r', 0x0c, 0x0b, 0x7b, 0x7d]

/-- **A block mark at the end of a line**, with the gap in front of it. -/
structure MarkTail (m : Bytes) : Prop where
  octets : ∀ b ∈ m, b ∈ markOctets
  brace : 0x7b ∈ m

theorem mem_markOctets_of_isGapOctet {b : UInt8} (h : isGapOctet b) : b ∈ markOctets := by
  simp only [isGapOctet, Bool.or_eq_true, beq_iff_eq] at h
  rcases h with (((rfl | rfl) | rfl) | rfl) | rfl <;> decide

namespace MarkTail

variable {m : Bytes} (hm : MarkTail m)

include hm

/-- The first octet is none of a class that has no octets of a mark. -/
theorem head? {p : UInt8 → Bool} (hp : markOctets.all fun b => !p b) : m.head?.any p = false := by
  cases hhead : m.head? with
  | none => rfl
  | some b =>
    have hb := List.all_eq_true.mp hp b (hm.octets b (List.mem_of_head? hhead))
    simpa using hb

theorem notMem {b : UInt8} (hb : b ∉ markOctets) : b ∉ m := fun h => hb (hm.octets b h)

/-! ### Words, lists and literals in front of a mark -/

theorem takeWhile_append {p : UInt8 → Bool} (hp : markOctets.all fun b => !p b) (s : Bytes) :
    (s ++ m).takeWhile p = s.takeWhile p := by
  induction s with
  | nil =>
    have hw := takeWhile_append_of_boundary (w := []) (by simp) (hm.head? hp)
    exact hw
  | cons b s ih =>
    rw [List.cons_append, List.takeWhile_cons, List.takeWhile_cons, ih]

theorem dropWhile_append {p : UInt8 → Bool} (hp : markOctets.all fun b => !p b) (s : Bytes) :
    (s ++ m).dropWhile p = s.dropWhile p ++ m := by
  induction s with
  | nil =>
    have hw := dropWhile_append_of_boundary (w := []) (by simp) (hm.head? hp)
    exact hw
  | cons b s ih =>
    rw [List.cons_append, List.dropWhile_cons, List.dropWhile_cons]
    split
    · exact ih
    · rfl

theorem takeWord_append {first more : UInt8 → Bool} (hfirst : markOctets.all fun b => !first b)
    (hmore : markOctets.all fun b => !more b) (s : Bytes) :
    takeWord first more (s ++ m) = ((takeWord first more s).1, (takeWord first more s).2 ++ m) := by
  cases s with
  | nil =>
    rw [List.nil_append, takeWord_of_head? more (hm.head? hfirst)]
    rfl
  | cons b s =>
    rw [List.cons_append, takeWord, takeWord]
    split
    · rw [hm.takeWhile_append hmore, hm.dropWhile_append hmore]
    · rfl

theorem takeAll?_append (s : Bytes) : Shorthand.takeAll? (s ++ m) =
    (Shorthand.takeAll? s).map fun y => (y.1, y.2 ++ m) := by
  have hname : markOctets.all fun b => !isNameOctet b := by decide
  induction s using Shorthand.takeAll?.induct with
  | case1 =>
    rw [List.nil_append, Shorthand.takeAll?_of_head? (hm.head? (by decide)) (hm.head? (by decide)),
      Shorthand.takeAll?]
    rfl
  | case2 mark r hnone =>
    rw [List.cons_append, Shorthand.takeAll?, hm.takeWhile_append hname, hnone, Shorthand.takeAll?,
      hnone]
    rfl
  | case3 mark r sh hsome hempty =>
    rw [List.cons_append, Shorthand.takeAll?, hm.takeWhile_append hname, hsome, Shorthand.takeAll?,
      hsome]
    dsimp only
    rw [if_pos hempty, if_pos hempty]
    rfl
  | case4 mark r sh hsome hempty hnone ih =>
    rw [List.cons_append, Shorthand.takeAll?, hm.takeWhile_append hname, hsome, Shorthand.takeAll?,
      hsome]
    dsimp only
    rw [if_neg hempty, if_neg hempty, hm.dropWhile_append hname, ih, hnone]
    rfl
  | case5 mark r sh hsome hempty shs t hsome' ih =>
    rw [List.cons_append, Shorthand.takeAll?, hm.takeWhile_append hname, hsome, Shorthand.takeAll?,
      hsome]
    dsimp only
    rw [if_neg hempty, if_neg hempty, hm.dropWhile_append hname, ih, hsome']
    rfl

theorem take_append (s : Bytes)
    (hclosed : (AttributeList.take (s ++ m)).1.all AttributeList.closed) :
    AttributeList.take (s ++ m) = ((AttributeList.take s).1, (AttributeList.take s).2 ++ m) := by
  cases s with
  | nil =>
    rw [List.nil_append, AttributeList.take_of_head? (hm.head? (by decide))]
    rfl
  | cons b s =>
    rw [List.cons_append, AttributeList.take] at hclosed ⊢
    rw [AttributeList.take]
    by_cases hb : b = octet '('
    · subst hb
      have hfirst (t : Bytes) : Nesting.close? (octet '(' :: t) =
          (Nesting.closeFrom? (Nesting.level 1) t).map fun y => (octet '(' :: y.1, y.2) := rfl
      have hclose := Nesting.closeFrom?_append_of_notMem (hm.notMem (b := octet ')') (by decide))
        (n := Nesting.level 1) (by decide) s
      rw [if_pos rfl, hfirst, hclose] at hclosed ⊢
      rw [if_pos rfl, hfirst]
      cases hs : Nesting.closeFrom? (Nesting.level 1) s with
      | none => exact absurd hclosed (by simp [hs])
      | some y => rfl
    · rw [if_neg hb, if_neg hb]
      rfl

/-- A gap may swallow the gap in front of a mark. -/
theorem skipGap_append (s : Bytes) :
    ∃ m', MarkTail m' ∧ skipGap (s ++ m) = skipGap s ++ m' := by
  induction s with
  | nil =>
    have hbrace : 0x7b ∈ skipGap m := by
      have hsplit := List.takeWhile_append_dropWhile (p := isGapOctet) (l := m)
      have hmem := hm.brace
      rw [← hsplit, List.mem_append] at hmem
      rcases hmem with hgap | hrest
      · exact absurd (List.all_eq_true.mp List.all_takeWhile _ hgap) (by decide)
      · exact hrest
    exact ⟨skipGap m, ⟨fun b hb => hm.octets b (List.dropWhile_subset _ hb), hbrace⟩, rfl⟩
  | cons b s ih =>
    rw [List.cons_append, skipGap, skipGap, List.dropWhile_cons, List.dropWhile_cons]
    split
    · exact ih
    · exact ⟨m, hm, rfl⟩

theorem takeText?_append {s r : Bytes} {text : Option Bytes}
    (h : takeText? (s ++ m) = some (text, r)) :
    ∃ r' m', MarkTail m' ∧ r = r' ++ m' ∧ takeText? s = some (text, r') := by
  cases s with
  | nil =>
    rw [List.nil_append, takeText?_of_head? (hm.head? (by decide))] at h
    obtain ⟨rfl, rfl⟩ : none = text ∧ m = r := by simpa using h
    exact ⟨[], m, hm, rfl, rfl⟩
  | cons q s =>
    rw [List.cons_append, takeText?, List.head?_cons] at h
    rw [takeText?, List.head?_cons]
    split at h
    · rename_i hq
      have hquote : Quoted.isQuote q := by simpa using hq
      have hnotMem : q ∉ m := by
        refine hm.notMem fun hmem => ?_
        have hnone := List.all_eq_true.mp
          (show markOctets.all (fun b => !Quoted.isQuote b) by decide) q hmem
        exact absurd hquote (by simpa using hnone)
      rw [if_pos hq]
      rw [Quoted.take?, Quoted.closing?_append_of_notMem hnotMem] at h
      rw [Quoted.take?]
      cases hs : Quoted.closing? q s with
      | none => exact absurd h (by simp [hs])
      | some y =>
        obtain ⟨m', hm', hskip⟩ := hm.skipGap_append y.2
        obtain ⟨rfl, rfl⟩ : some (Quoted.content (q :: y.1)) = text ∧ skipGap (y.2 ++ m) = r := by
          simpa [hs] using h
        exact ⟨skipGap y.2, m', hm', hskip, rfl⟩
    · rename_i hq
      obtain ⟨rfl, rfl⟩ : none = text ∧ q :: (s ++ m) = r := by simpa using h
      exact ⟨q :: s, m, hm, rfl, if_neg hq⟩

theorem takeBind_append (s : Bytes) :
    ∃ m', MarkTail m' ∧ takeBind (s ++ m) = ((takeBind s).1, (takeBind s).2 ++ m') := by
  rw [takeBind, takeBind, takeBinding, hm.takeWord_append (by decide) (by decide), ← takeBinding]
  dsimp only
  split
  · exact ⟨m, hm, rfl⟩
  · obtain ⟨m', hm', hskip⟩ := hm.skipGap_append (takeBinding s).2
    exact ⟨m', hm', by rw [hskip]⟩

/-- **Only a mark is taken for a mark**: in front of one there is nothing left. -/
theorem eq_nil_of_takeBlock {s : Bytes} (h : (takeBlock (s ++ m)).2 = []) : s = [] := by
  cases s with
  | nil => rfl
  | cons b s =>
    -- The brace of the mark would have to be skipped as a gap.
    have hskip (t : Bytes) (ht : 0x7b ∈ t) : skipGap t ≠ [] := fun hnil =>
      absurd (List.dropWhile_eq_nil_iff.mp hnil _ ht) (by decide)
    rw [List.cons_append, takeBlock] at h
    split at h
    · cases hs : skipGap (s ++ m) with
      | nil => exact absurd hs (hskip _ (List.mem_append_right s hm.brace))
      | cons c t =>
        obtain ⟨m', hm', happend⟩ := hm.skipGap_append s
        have hmem : 0x7b ∈ c :: t := by
          rw [← hs, happend]
          exact List.mem_append_right _ hm'.brace
        rw [hs] at h
        dsimp only at h
        split at h
        · rename_i hc
          have ht : 0x7b ∈ t := by
            rw [hc] at hmem
            simpa using hmem
          exact absurd h (hskip t ht)
        · exact absurd h (by simp)
    · exact absurd h (by simp)

end MarkTail

/-! ### The parts in front of a mark -/

namespace TagLine

/-- The parts of a tag line but for its block mark, at the start of a text, and what follows them.
-/
inductive Front : Bytes → TagLine → Bytes → Prop
  | parts {s r₁ r₂ : Bytes} {shorthands : List Shorthand} {text : Option Bytes}
    (htag : (takeTag s).1 ≠ [])
    (hshorthands : Shorthand.takeAll? (takeTag s).2 = some (shorthands, r₁))
    (htext : takeText? (skipGap (AttributeList.take r₁).2) = some (text, r₂)) :
    Front s
      { tag := (takeTag s).1
        shorthands
        attributes := (AttributeList.take r₁).1
        text
        binding := (takeBind r₂).1 }
      (takeBind r₂).2

/-- **A tag line is its parts and a block mark**, and nothing else. -/
theorem parse?_eq_some_iff {s : Bytes} {t : TagLine} : parse? s = some t ↔
    ∃ u r, Front s u r ∧ (takeBlock r).2 = [] ∧ t = { u with block := (takeBlock r).1 } := by
  rw [parse?]
  constructor
  · intro h
    split at h
    · exact absurd h (by simp)
    rename_i htag
    split at h
    · exact absurd h (by simp)
    rename_i shorthands r₁ hshorthands
    dsimp only at h
    split at h
    · exact absurd h (by simp)
    rename_i text r₂ htext
    split at h
    · rename_i hblock
      obtain rfl := Option.some.inj h
      exact ⟨_, _, .parts (by simpa using htag) hshorthands htext, by simpa using hblock, rfl⟩
    · exact absurd h (by simp)
  · rintro ⟨u, r, hfront, hblock, rfl⟩
    cases hfront with
    | parts htag hshorthands htext =>
      simp only [hshorthands, htext, hblock]
      rw [if_neg (by simpa using htag)]
      rfl

/-- The parts are the same without the mark. -/
theorem Front.of_append {m : Bytes} (hm : MarkTail m) {s r : Bytes} {t : TagLine}
    (h : Front (s ++ m) t r) (hclosed : t.attributes.all AttributeList.closed) :
    ∃ r' m', MarkTail m' ∧ r = r' ++ m' ∧ Front s t r' := by
  have htake : takeTag (s ++ m) = ((takeTag s).1, (takeTag s).2 ++ m) :=
    hm.takeWord_append (by decide) (by decide) s
  cases h with
  | parts htag hshorthands htext =>
    rw [htake, hm.takeAll?_append] at hshorthands
    obtain ⟨y, hy, heq⟩ := Option.map_eq_some_iff.mp hshorthands
    obtain ⟨rfl, rfl⟩ : y.1 = _ ∧ y.2 ++ m = _ := by simpa using heq
    have hlist := hm.take_append y.2 hclosed
    rw [hlist] at htext
    obtain ⟨m₁, hm₁, hgap⟩ := hm.skipGap_append (AttributeList.take y.2).2
    rw [hgap] at htext
    obtain ⟨r₂, m₂, hm₂, rfl, htext'⟩ := hm₁.takeText?_append htext
    obtain ⟨m₃, hm₃, hbind⟩ := hm₂.takeBind_append r₂
    rw [htake, hlist, hbind]
    rw [htake] at htag
    exact ⟨_, m₃, hm₃, rfl, .parts htag hy htext'⟩

/-- **A tag line without its mark** has the same parts, and nothing follows them. -/
theorem front_of_parse?_append {m : Bytes} (hm : MarkTail m) {s : Bytes} {t : TagLine}
    (h : parse? (s ++ m) = some t) (hclosed : t.attributes.all AttributeList.closed) :
    Front s { t with block := false } [] := by
  obtain ⟨u, r, hfront, hblock, rfl⟩ := parse?_eq_some_iff.mp h
  obtain ⟨r', m', hm', rfl, hfront'⟩ := hfront.of_append hm hclosed
  obtain rfl := hm'.eq_nil_of_takeBlock hblock
  have hu : u.block = false := by
    cases hfront
    rfl
  rwa [← hu]

end TagLine

/-! ### What the parts end in -/

/-- A text is what stands in front of another one and ends in an octet of ASCII: one that is not
white space, or a gap. -/
def EndsSolid (s r : Bytes) : Prop :=
  ∃ p : Bytes, s = p ++ r ∧ ∀ e, p.getLast? = some e → isSolid e ∨ isGapOctet e

namespace EndsSolid

variable {s r t : Bytes}

theorem refl (s : Bytes) : EndsSolid s s := ⟨[], rfl, by simp⟩

theorem trans (h : EndsSolid s r) (h' : EndsSolid r t) : EndsSolid s t := by
  obtain ⟨p, rfl, hp⟩ := h
  obtain ⟨p', rfl, hp'⟩ := h'
  refine ⟨p ++ p', (List.append_assoc p p' t).symm, fun e he => ?_⟩
  rw [List.getLast?_append] at he
  cases hlast : p'.getLast? with
  | none => exact hp e (by simpa [hlast] using he)
  | some e' => exact hp' e (by rw [hlast]; simpa [hlast] using he)

/-- What is made of names and gaps ends so. -/
theorem of_all {p : Bytes} (hp : ∀ b ∈ p, isNameOctet b ∨ isGapOctet b) (r : Bytes) :
    EndsSolid (p ++ r) r :=
  ⟨p, rfl, fun e he => (hp e (List.mem_of_getLast? he)).imp_left Print.isSolid_of_isNameOctet⟩

theorem skipGap (s : Bytes) : EndsSolid s (skipGap s) := by
  have h := of_all (p := s.takeWhile isGapOctet)
    (fun b hb => Or.inr (List.all_eq_true.mp List.all_takeWhile b hb)) (s.dropWhile isGapOctet)
  rwa [List.takeWhile_append_dropWhile] at h

theorem takeWord {first more : UInt8 → Bool} (hname : ∀ w, isWord first more w → isName w)
    (s : Bytes) : EndsSolid s (takeWord first more s).2 := by
  by_cases hne : (LiveMarkup.takeWord first more s).1 = []
  · have h := takeWord_append first more s
    rw [hne, List.nil_append] at h
    rw [h]
    exact refl s
  · have h := of_all (p := (LiveMarkup.takeWord first more s).1)
      (fun b hb => Or.inl (List.all_eq_true.mp (hname _ (isWord_takeWord hne)) b hb))
      (LiveMarkup.takeWord first more s).2
    rwa [takeWord_append] at h

theorem takeAll? {shorthands : List Shorthand} (h : Shorthand.takeAll? s = some (shorthands, r)) :
    EndsSolid s r := by
  induction s using Shorthand.takeAll?.induct generalizing shorthands with
  | case1 =>
    obtain ⟨-, rfl⟩ : [] = shorthands ∧ [] = r := by simpa [Shorthand.takeAll?] using h
    exact refl []
  | case2 mark s hnone =>
    obtain ⟨-, rfl⟩ : [] = shorthands ∧ mark :: s = r := by
      simpa [Shorthand.takeAll?, hnone] using h
    exact refl _
  | case3 mark s sh hsome hempty =>
    rw [Shorthand.takeAll?, hsome] at h
    exact absurd h (by simp [hempty])
  | case4 mark s sh hsome hempty hnone ih =>
    rw [Shorthand.takeAll?, hsome] at h
    exact absurd h (by simp [hempty, hnone])
  | case5 mark s sh hsome hempty shs t hsome' ih =>
    obtain ⟨-, rfl⟩ : sh :: shs = shorthands ∧ t = r := by
      rw [Shorthand.takeAll?, hsome] at h
      dsimp only at h
      rw [if_neg hempty, hsome'] at h
      simpa using h
    -- A mark has a name behind it, so the last octet is one of the name.
    have hname : EndsSolid (mark :: s) (s.dropWhile isNameOctet) := by
      refine ⟨mark :: s.takeWhile isNameOctet, ?_, fun e he => ?_⟩
      · rw [List.cons_append, List.takeWhile_append_dropWhile]
      · have hne : s.takeWhile isNameOctet ≠ [] := by simpa using hempty
        rw [← List.singleton_append, List.getLast?_append_of_ne_nil _ hne] at he
        have hall := List.all_eq_true.mp List.all_takeWhile e (List.mem_of_getLast? he)
        exact Or.inl (Print.isSolid_of_isNameOctet hall)
    exact hname.trans (ih hsome')

theorem take (hclosed : (AttributeList.take s).1.all AttributeList.closed) :
    EndsSolid s (AttributeList.take s).2 := by
  cases s with
  | nil => exact refl []
  | cons b s =>
    rw [AttributeList.take] at hclosed ⊢
    split
    · rename_i hb
      rw [if_pos hb] at hclosed
      subst hb
      have hfirst : Nesting.close? (octet '(' :: s) =
          (Nesting.closeFrom? (Nesting.level 1) s).map fun y => (octet '(' :: y.1, y.2) := rfl
      rw [hfirst] at hclosed ⊢
      cases hs : Nesting.closeFrom? (Nesting.level 1) s with
      | none => exact absurd hclosed (by simp [hs])
      | some y =>
        have heq := Nesting.eq_of_closeFrom? (n := Nesting.level 1) (by decide) hs
        refine ⟨octet '(' :: y.1 ++ [octet ')'], by simp [heq], fun e he => ?_⟩
        rw [List.getLast?_concat] at he
        obtain rfl := Option.some.inj he
        exact Or.inl (by decide)
    · exact refl _

theorem takeText? {text : Option Bytes} (h : takeText? s = some (text, r)) : EndsSolid s r := by
  rw [LiveMarkup.takeText?] at h
  split at h
  · rename_i hq
    cases s with
    | nil => exact absurd hq (by simp)
    | cons q s =>
      rw [Quoted.take?] at h
      cases hs : Quoted.closing? q s with
      | none => exact absurd h (by simp [hs])
      | some y =>
        obtain ⟨-, rfl⟩ : some (Quoted.content (q :: y.1)) = text ∧ LiveMarkup.skipGap y.2 = r := by
          simpa [hs] using h
        obtain ⟨heq, hlast⟩ := Quoted.eq_of_closing? hs
        refine EndsSolid.trans ⟨q :: y.1, by rw [heq, List.cons_append], fun e he => ?_⟩
          (skipGap y.2)
        rw [List.getLast?_cons, hlast] at he
        obtain rfl : q = e := by simpa using he
        have hquote : Quoted.isQuote q := by simpa using hq
        rw [Quoted.isQuote, Bool.or_eq_true, beq_iff_eq, beq_iff_eq] at hquote
        rcases hquote with rfl | rfl <;> exact Or.inl (by decide)
  · obtain ⟨-, rfl⟩ : none = text ∧ s = r := by simpa using h
    exact refl s

theorem takeBind (s : Bytes) : EndsSolid s (takeBind s).2 := by
  rw [LiveMarkup.takeBind]
  split
  · exact refl s
  · exact (takeWord (fun _ => Print.isName_of_isBinding) s).trans (skipGap _)

end EndsSolid

/-- The parts of a tag line end in an octet of ASCII. -/
theorem TagLine.Front.endsSolid {s r : Bytes} {t : TagLine} (h : Front s t r)
    (hclosed : t.attributes.all AttributeList.closed) : EndsSolid s r := by
  cases h with
  | parts htag hshorthands htext =>
    have htag' : EndsSolid s (takeTag s).2 := EndsSolid.takeWord (fun _ => isName_of_isTag) s
    refine htag'.trans ((EndsSolid.takeAll? hshorthands).trans ?_)
    refine (EndsSolid.take hclosed).trans ((EndsSolid.skipGap _).trans ?_)
    exact (EndsSolid.takeText? htext).trans (EndsSolid.takeBind _)

/-! ### What a line is taken for without its mark -/

namespace Bytes

theorem after?_append {p s r : Bytes} (h : after? p s = some r) (t : Bytes) :
    after? p (s ++ t) = some (r ++ t) := by
  induction p generalizing s with
  | nil =>
    obtain rfl := Option.some.inj h
    rfl
  | cons a p ih =>
    cases s with
    | nil => exact absurd h (by simp [after?])
    | cons b s =>
      rw [after?] at h
      rw [List.cons_append, after?]
      split at h
      · rename_i hab
        rw [if_pos hab, ih h]
      · exact absurd h (by simp)

end Bytes

namespace Style

/-- What may stand in front of the brace of a style directive, and the brace. -/
def openingOctets : List UInt8 :=
  [octet ' ', octet '\t', octet '\n', octet '\r', 0x0c, 0x7b]

theorem head?_opening {p : UInt8 → Bool} (hp : openingOctets.all fun b => !p b) {blanks : Bytes}
    (hblanks : ∀ b ∈ blanks, isPatternBlank b) (t : Bytes) :
    (blanks ++ 0x7b :: t).head?.any p = false := by
  have hmem : ∀ b, (blanks ++ 0x7b :: t).head? = some b → b ∈ openingOctets := by
    intro b hb
    cases blanks with
    | nil =>
      obtain rfl : 0x7b = b := by simpa using hb
      decide
    | cons c blanks =>
      obtain rfl : c = b := by simpa using hb
      have hc := hblanks c List.mem_cons_self
      simp only [isPatternBlank, Bool.or_eq_true, beq_iff_eq] at hc
      rcases hc with (((rfl | rfl) | rfl) | rfl) | rfl <;> decide
  cases hhead : (blanks ++ 0x7b :: t).head? with
  | none => rfl
  | some b => simpa using List.all_eq_true.mp hp b (hmem b hhead)

theorem skipGap_opening {blanks : Bytes} (hblanks : ∀ b ∈ blanks, isPatternBlank b) (t : Bytes) :
    ∃ blanks' : Bytes, (∀ b ∈ blanks', isPatternBlank b) ∧
      skipGap (blanks ++ 0x7b :: t) = blanks' ++ 0x7b :: t := by
  induction blanks with
  | nil => exact ⟨[], by simp, rfl⟩
  | cons b blanks ih =>
    rw [List.cons_append, skipGap, List.dropWhile_cons]
    split
    · exact ih fun c hc => hblanks c (List.mem_cons_of_mem b hc)
    · exact ⟨b :: blanks, hblanks, rfl⟩

/-- **Parts that nothing follows are no style directive**, since a directive has a brace. -/
theorem directive?_of_front {s r : Bytes} {t : TagLine} (h : TagLine.Front s t r) (hr : r = []) :
    Directive.parse? s = none := by
  cases hd : Directive.parse? s with
  | none => rfl
  | some d =>
    exfalso
    rw [Directive.parse?] at hd
    split at hd
    · exact absurd hd (by simp)
    rename_i u hu
    split at hd
    · exact absurd hd (by simp)
    rename_i b v hv
    split at hd
    swap
    · exact absurd hd (by simp)
    rename_i hb
    subst hb
    obtain ⟨blanks, hblanks, rfl⟩ : ∃ blanks : Bytes, (∀ b ∈ blanks, isPatternBlank b) ∧
        u = blanks ++ 0x7b :: v :=
      ⟨u.takeWhile isPatternBlank, fun b hb => List.all_eq_true.mp List.all_takeWhile b hb,
        by rw [← hv, List.takeWhile_append_dropWhile]⟩
    obtain rfl := Bytes.eq_of_after? hu
    obtain ⟨blanks', hblanks', hskip⟩ := skipGap_opening hblanks v
    -- None of the parts after the tag is there, so that the brace is left over.
    have htag : takeTag (utf8 "style" ++ (blanks ++ 0x7b :: v)) =
        (utf8 "style", blanks ++ 0x7b :: v) :=
      takeWord_append_of_isWord (by decide) (head?_opening (by decide) hblanks v)
    cases h with
    | parts htag' hshorthands htext =>
      rw [htag, Shorthand.takeAll?_of_head? (head?_opening (by decide) hblanks v)
        (head?_opening (by decide) hblanks v)] at hshorthands
      obtain ⟨-, rfl⟩ : [] = _ ∧ blanks ++ 0x7b :: v = _ := by simpa using hshorthands
      rw [AttributeList.take_of_head? (head?_opening (by decide) hblanks v), hskip,
        takeText?_of_head? (head?_opening (by decide) hblanks' v)] at htext
      obtain ⟨-, rfl⟩ : none = _ ∧ blanks' ++ 0x7b :: v = _ := by simpa using htext
      rw [takeBind_of_head? (head?_opening (by decide) hblanks' v)] at hr
      exact absurd hr (by simp)

end Style

namespace LineKind

/-- The tests that a tag line has passed. -/
theorem tests_of_ofText {s : Bytes} {t : TagLine} (h : ofText s = .tag t) :
    isStateLine s = false ∧ TagLine.parse? s = some t := by
  have haccepts := accepts_ofText s
  rw [h] at haccepts
  refine ⟨Bool.eq_false_iff.mpr fun hstate => ?_, haccepts⟩
  rw [ofText, hstate, if_pos rfl] at h
  split at h
  · exact absurd h (by simp)
  · rw [ofState] at h
    split at h
    · exact absurd h (by simp)
    · split at h <;> exact absurd h (by simp)

theorem ofText_of_front {s r : Bytes} {t : TagLine} (h : TagLine.Front s t r) (hr : r = [])
    (hstate : isStateLine s = false) : ofText s = .tag t := by
  have hdirective := Style.directive?_of_front h hr
  have hparse : TagLine.parse? s = some t := by
    refine TagLine.parse?_eq_some_iff.mpr ⟨t, r, h, ?_, ?_⟩
    · rw [hr]
      rfl
    · rw [hr]
      cases h
      rfl
  obtain ⟨b, s', rfl, hb⟩ : ∃ b s', s = b :: s' ∧ isNameOctet b := by
    have hname := isName_of_isTag (TagLine.isTag_of_parse? hparse)
    obtain ⟨htag, hne, -⟩ := TagLine.of_parse? hparse
    obtain ⟨b, w, hw⟩ := List.exists_cons_of_ne_nil hne
    rw [htag, hw] at hname
    refine ⟨b, w ++ (takeTag s).2, ?_, List.all_eq_true.mp hname b List.mem_cons_self⟩
    rw [← List.cons_append, ← hw]
    exact (takeWord_append _ _ s).symm
  have hclosing : isClosing (b :: s') = false := by
    have hbrace := Print.eq_false_of_isNameOctet (p := (· == 0x7d)) [0x7d] (by simp) (by decide) hb
    have hgap := Print.isGapOctet_of_isNameOctet hb
    simp [isClosing, hbrace, hgap]
  rw [ofText, hclosing, if_neg (by simp), hstate, if_neg (by simp), hdirective]
  dsimp only
  rw [List.head?_cons, Option.any_some, Print.isQuote_of_isNameOctet hb, if_neg (by simp), hparse]

/-- **A tag line without its block mark** is a tag line with the same parts, and it ends in an octet
of ASCII. -/
theorem ofText_of_append_mark {m : Bytes} (hm : MarkTail m) {s : Bytes} {t : TagLine}
    (h : ofText (s ++ m) = .tag t) (hclosed : t.attributes.all AttributeList.closed) :
    ofText s = .tag { t with block := false } ∧ EndsSolid s [] := by
  obtain ⟨hstate, hparse⟩ := tests_of_ofText h
  have hfront := TagLine.front_of_parse?_append hm hparse hclosed
  refine ⟨ofText_of_front hfront rfl ?_, hfront.endsSolid hclosed⟩
  -- A line that starts like a declaration starts so with the mark behind it too.
  rw [isStateLine, Bool.or_eq_false_iff] at hstate ⊢
  have hafter {p : Bytes} (hp : (Bytes.after? p (s ++ m)).isSome = false) :
      (Bytes.after? p s).isSome = false := by
    cases hs : Bytes.after? p s with
    | none => rfl
    | some r => exact absurd hp (by simp [Bytes.after?_append hs])
  exact ⟨hafter hstate.1, hafter hstate.2⟩

end LineKind

end LiveMarkup

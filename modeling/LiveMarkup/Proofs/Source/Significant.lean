import LiveMarkup.Proofs.Source.Columns
import LiveMarkup.Proofs.Tree.Reformatting

/-!
# What the significant lines of a source are

A line is read in three passes: the carriage return at its end is dropped, the white space around it
is trimmed, and the white space in front of it is counted. None of them asks whether the line is
well-formed. They agree on where its text begins and ends all the same, since the margins of a text
are white space that can be cut off (`LiveMarkup.Bytes.exists_margins`), and since there is only one
way to do so: `LiveMarkup.Bytes.isWithin_iff` says that the trimmed text and the indent are the one
text and the one number with white space around them.

What a line comes to can therefore be said without any of the passes. `LiveMarkup.Line.IsReadFrom`
relates a significant line to the octets between two line feeds, and the main statement,
`LiveMarkup.Line.significant_lines`, says that a source has the lines that are related to it, in
their order, and that it has the same ones if its lines end in a carriage return and a line feed.
-/

namespace LiveMarkup

namespace Utf8

theorem chars_eq_nil_iff {s : Bytes} : chars s = [] ↔ s = [] := by
  constructor
  · intro h
    rcases hs : uncons? s with - | ⟨c, r⟩
    · exact eq_nil_of_uncons? hs
    · rw [chars_of_uncons? hs] at h
      exact absurd h (by simp)
  · rintro rfl
    exact chars_nil

/-- The last character of a text stands at its end. -/
theorem exists_of_getLast?_chars {s : Bytes} {c : Char} (h : (chars s).getLast? = some (some c)) :
    ∃ t, s = t ++ encode c := by
  induction s using chars.induct with
  | case1 s hs =>
    obtain rfl := eq_nil_of_uncons? hs
    exact absurd h (by simp)
  | case2 s d r hs ih =>
    rw [chars_of_uncons? hs] at h
    rcases eq_or_ne r [] with rfl | hr
    · obtain rfl : d = some c := by simpa using h
      exact ⟨[], by simpa using eq_encode_of_uncons? hs⟩
    · have hne : chars r ≠ [] := fun hnil => hr (chars_eq_nil_iff.mp hnil)
      rw [List.getLast?_cons_of_ne_nil hne] at h
      obtain ⟨t, rfl⟩ := ih h
      obtain ⟨p, hp⟩ := suffix_of_uncons? hs
      exact ⟨p ++ t, by rw [List.append_assoc, hp]⟩

end Utf8

namespace Bytes

/-! ### Margins -/

theorem isWhite_append {s t : Bytes} (hs : s.isWhite) (ht : t.isWhite) : (s ++ t).isWhite := by
  have hcut : Utf8.IsCut s t := Utf8.isCut_of_head? s (isContinuation_head?_of_isWhite ht)
  rw [isWhite, hcut, List.all_append, Bool.and_eq_true]
  exact ⟨hs, ht⟩

theorem isWhite_encode {c : Char} (hc : isBlank c) : isWhite (Utf8.encode c) :=
  isWhite_iff.mpr ⟨[c], (List.append_nil _).symm, List.forall_mem_singleton.mpr hc⟩

/-- In front of what is left of a text stands white space, as many characters as the indent. -/
theorem exists_trimStart (s : Bytes) :
    ∃ w : Bytes, s = w ++ trimStart s ∧ w.isWhite ∧ Utf8.count w = indentWidth s := by
  have hnone : Utf8.count [] = 0 := by rw [Utf8.count, Utf8.chars_nil, List.length_nil]
  induction s using trimStart.induct with
  | case1 s hs =>
    obtain rfl := Utf8.eq_nil_of_uncons? hs
    refine ⟨[], trimStart_nil.symm, isWhite_nil, ?_⟩
    rw [hnone, indentWidth_of_head (by simp)]
  | case2 s c r hs hc ih =>
    obtain ⟨w, hr, hw, hcount⟩ := ih
    obtain ⟨d, rfl⟩ : ∃ d, c = some d := by
      cases c with
      | none => exact absurd hc (by simp [isBlank?])
      | some d => exact ⟨d, rfl⟩
    refine ⟨Utf8.encode d ++ w, ?_, isWhite_append (isWhite_encode hc) hw, ?_⟩
    · rw [trimStart_of_uncons? hs, if_pos hc, List.append_assoc, ← hr]
      exact Utf8.eq_encode_of_uncons? hs
    · rw [indentWidth_of_uncons? hs, if_pos hc, ← hcount, Utf8.count,
        Utf8.chars_of_uncons? (Utf8.uncons?_encode d w), List.length_cons, Utf8.count]
  | case3 s c r hs hc =>
    refine ⟨[], by rw [trimStart_of_uncons? hs, if_neg hc, List.nil_append], isWhite_nil, ?_⟩
    rw [hnone, indentWidth_of_uncons? hs, if_neg hc]

/-- Behind what is left of a text stands white space. -/
theorem exists_trimEnd (s : Bytes) : ∃ w : Bytes, s = trimEnd s ++ w ∧ w.isWhite := by
  induction s using Utf8.chars.induct with
  | case1 s hs =>
    obtain rfl := Utf8.eq_nil_of_uncons? hs
    exact ⟨[], by rw [trimEnd_nil, List.append_nil], isWhite_nil⟩
  | case2 s c r hs ih =>
    obtain ⟨w, hr, hw⟩ := ih
    rw [trimEnd_of_uncons? hs]
    split_ifs with hempty
    · -- Nothing is left behind the character, so all of the text is white space.
      rw [Bool.and_eq_true, List.isEmpty_iff] at hempty
      rw [hempty.1, List.nil_append] at hr
      refine ⟨s, rfl, ?_⟩
      rw [isWhite, Utf8.chars_of_uncons? hs, List.all_cons, hempty.2, hr]
      exact hw
    · exact ⟨w, by rw [List.append_assoc, ← hr, take_append_of_uncons? hs], hw⟩

/-- **The margins of a text** are white space, and the indent counts the characters in front. -/
theorem exists_margins (s : Bytes) : ∃ before after : Bytes, s = before ++ trim s ++ after ∧
    before.isWhite ∧ Utf8.count before = indentWidth s ∧ after.isWhite := by
  obtain ⟨before, hstart, hbefore, hcount⟩ := exists_trimStart s
  obtain ⟨after, hend, hafter⟩ := exists_trimEnd (trimStart s)
  exact ⟨before, after, by rw [trim, List.append_assoc, ← hend, ← hstart], hbefore, hcount, hafter⟩

theorem trimStart_of_head? {s : Bytes} (h : (Utf8.chars s).head?.any isBlank? = false) :
    trimStart s = s := by
  rcases hs : Utf8.uncons? s with - | ⟨c, r⟩
  · rw [Utf8.eq_nil_of_uncons? hs, trimStart_nil]
  · rw [Utf8.chars_of_uncons? hs] at h
    rw [trimStart_of_uncons? hs, if_neg (by simpa using h)]

/-- **Nothing is trimmed at the end** of a text exactly if it does not end in white space. -/
theorem trimEnd_eq_self_iff {s : Bytes} :
    trimEnd s = s ↔ (Utf8.chars s).getLast?.any isBlank? = false := by
  constructor
  · intro h
    rcases hlast : (Utf8.chars s).getLast? with - | - | c
    · rfl
    · rfl
    · -- A blank at the end would be trimmed, and less would be left.
      refine Bool.eq_false_iff.mpr fun hblank => ?_
      obtain ⟨t, rfl⟩ := Utf8.exists_of_getLast?_chars hlast
      rw [trimEnd_append_white (isWhite_encode hblank)] at h
      have hle := (trimEnd_isPrefix t).length_le
      have hpos := List.length_pos_of_ne_nil (Utf8.encode_ne_nil c)
      rw [h, List.length_append] at hle
      omega
  · intro h
    obtain ⟨w, hs, hw⟩ := exists_trimEnd s
    obtain ⟨cs, rfl, hcs⟩ := isWhite_iff.mp hw
    rcases List.eq_nil_or_concat' cs with rfl | ⟨ds, d, rfl⟩
    · rwa [Utf8.encodeAll_nil, List.append_nil, eq_comm] at hs
    · have hcut := Utf8.isCut_of_head? (trimEnd s) (isContinuation_head?_of_isWhite hw)
      rw [hs, hcut, Utf8.chars_encodeAll, List.map_append, ← List.append_assoc, List.map_singleton,
        List.getLast?_concat] at h
      exact absurd (hcs d (by simp)) (by simpa [isBlank?] using h)

/-- **A text stands between margins**: in front of it are some characters of white space and behind
it is white space only, and it neither begins nor ends with white space itself. -/
structure IsWithin (s : Bytes) (n : Nat) (t : Bytes) : Prop where
  margins : ∃ before after : Bytes, s = before ++ t ++ after ∧
    before.isWhite ∧ Utf8.count before = n ∧ after.isWhite
  first : (Utf8.chars t).head?.any isBlank? = false
  last : (Utf8.chars t).getLast?.any isBlank? = false

/-- **The trimmed text and the indent** are the only text and the only number that stand between
margins. -/
theorem isWithin_iff {s t : Bytes} {n : Nat} (ht : t ≠ []) :
    s.IsWithin n t ↔ trim s = t ∧ indentWidth s = n := by
  constructor
  · rintro ⟨⟨before, after, rfl, hbefore, rfl, hafter⟩, hfirst, hlast⟩
    have htrim : trim t = t := by
      rw [trim, trimStart_of_head? hfirst, trimEnd_eq_self_iff.mpr hlast]
    rw [List.append_assoc]
    constructor
    · rw [trim_white_append hbefore, trim_append_white hafter, htrim]
    · rw [indentWidth_white_append hbefore, indentWidth_append_white hafter (by rwa [htrim]),
        indentWidth_of_head hfirst, Nat.add_zero]
  · rintro ⟨rfl, rfl⟩
    refine ⟨exists_margins s, head?_chars_trim s, ?_⟩
    obtain ⟨w, hs, hw⟩ := exists_trimEnd (trimStart s)
    -- Trimming the end twice is trimming it once.
    have htwice := trimEnd_append_white hw (trimEnd (trimStart s))
    rw [← hs] at htwice
    exact trimEnd_eq_self_iff.mp htwice.symm

/-- **A line counts** unless it is blank or a comment. -/
theorem isSignificant_trim_iff {raw : Bytes} : Line.isSignificant raw.trim ↔ ¬raw.Ignored := by
  constructor
  · intro h hignored
    have hshape := shape?_of_ignored hignored
    rw [shape?, if_pos h] at hshape
    exact absurd hshape (by simp)
  · intro h
    obtain ⟨before, after, hraw, hbefore, -, hafter⟩ := exists_margins raw
    rw [Line.isSignificant, Bool.and_eq_true, Bool.not_eq_true', List.isEmpty_eq_false_iff,
      Option.isNone_iff_eq_none]
    constructor
    · intro hnil
      rw [hnil, List.append_nil] at hraw
      exact h (Or.inl (hraw ▸ isWhite_append hbefore hafter))
    · rcases hmark : after? Line.commentMark raw.trim with - | r
      · rfl
      · rw [eq_of_after? hmark, ← List.append_assoc, List.append_assoc] at hraw
        exact absurd (Or.inr ⟨before, r ++ after, hraw, hbefore⟩) h

/-! ### Line ends -/

/-- The text with a carriage return in front of every line feed. -/
def withReturns (s : Bytes) : Bytes :=
  s.flatMap fun b => if b = octet '\n' then utf8 "\r\n" else [b]

theorem withReturns_append (s t : Bytes) : withReturns (s ++ t) = withReturns s ++ withReturns t :=
  List.flatMap_append

theorem withReturns_of_notMem {l : Bytes} (h : octet '\n' ∉ l) : withReturns l = l := by
  induction l with
  | nil => rfl
  | cons b l ih =>
    rw [List.mem_cons, not_or] at h
    rw [withReturns, List.flatMap_cons, if_neg (Ne.symm h.1), ← withReturns, ih h.2]
    rfl

theorem withReturns_intercalate {ls : List Bytes} (h : ∀ l ∈ ls, octet '\n' ∉ l) :
    withReturns (List.intercalate (utf8 "\n") ls) = List.intercalate (utf8 "\r\n") ls := by
  induction ls with
  | nil => rfl
  | cons l ls ih =>
    rw [List.forall_mem_cons] at h
    cases ls with
    | nil =>
      rw [List.intercalate_singleton, List.intercalate_singleton]
      exact withReturns_of_notMem h.1
    | cons m ls =>
      rw [List.intercalate_cons_cons, List.intercalate_cons_cons, withReturns_append,
        withReturns_append, withReturns_of_notMem h.1, ih h.2]
      rfl

end Bytes

namespace Line

/-- **A line is read from the octets between two line feeds**: it has their number and the column
behind their indent, and its text is what stands there between the margins. -/
structure IsReadFrom (l : Line) (number : Nat) (raw : Bytes) : Prop where
  position : l.position = ⟨number, l.indent + 1⟩
  text_ne_nil : l.text ≠ []
  feed_notMem : octet '\n' ∉ l.text
  within : raw.IsWithin l.indent l.text

/-- **What a line of a source comes to.** -/
theorem ofRaw?_eq_some_iff {number : Nat} {raw : Bytes} (hfeed : octet '\n' ∉ raw) {l : Line} :
    ofRaw? number raw = some l ↔ ¬raw.Ignored ∧ l.IsReadFrom number raw := by
  rw [ofRaw?_eq_shape?, Bytes.shape?]
  constructor
  · intro h
    obtain ⟨y, hy, rfl⟩ := Option.map_eq_some_iff.mp h
    split at hy
    · rename_i hsignificant
      obtain rfl := Option.some.inj hy
      have hne := Bytes.ne_nil_of_isSignificant hsignificant
      exact ⟨Bytes.isSignificant_trim_iff.mp hsignificant, rfl, hne,
        (Bytes.isPart_trim raw).notMem hfeed, (Bytes.isWithin_iff hne).mpr ⟨rfl, rfl⟩⟩
    · exact absurd hy (by simp)
  · rintro ⟨hcounts, hposition, hne, -, hwithin⟩
    obtain ⟨htext, hindent⟩ := (Bytes.isWithin_iff hne).mp hwithin
    have hnumber : (l.number : Int) = number := congrArg Position.line hposition
    rw [if_pos (Bytes.isSignificant_trim_iff.mpr hcounts), htext, hindent, Option.map_some,
      ← Int.ofNat.inj hnumber]

theorem mem_ofRaws_of_ofRaw? {raws : List Bytes} {i : Nat} {raw : Bytes}
    (hraw : raws[i]? = some raw) {number : Nat} {l : Line}
    (hl : ofRaw? (number + i) raw = some l) : l ∈ ofRaws number raws := by
  induction raws generalizing number i with
  | nil => exact absurd hraw (by simp)
  | cons raw' raws ih =>
    rw [ofRaws]
    cases i with
    | zero =>
      obtain rfl : raw' = raw := by simpa using hraw
      rw [Nat.add_zero] at hl
      rw [hl]
      exact List.mem_cons_self
    | succ i =>
      have hrest : l ∈ ofRaws (number + 1) raws :=
        ih (by simpa using hraw) (by rwa [Nat.add_right_comm, Nat.add_assoc])
      split
      · exact List.mem_cons_of_mem _ hrest
      · exact hrest

/-- Lines that differ at their ends only come to the same. -/
theorem ofRaws_of_sameButEnd {raws raws' : List Bytes}
    (h : List.Forall₂ Bytes.SameButEnd raws raws') (number : Nat) :
    ofRaws number raws' = ofRaws number raws := by
  induction h generalizing number with
  | nil => rfl
  | @cons raw raw' _ _ hraw _ ih =>
    have hline : ofRaw? number raw' = ofRaw? number raw := by
      rw [ofRaw?_eq_shape?, ofRaw?_eq_shape?, Bytes.shape?_of_sameButEnd hraw]
    rw [ofRaws, ofRaws, hline, ih]

/-- **The significant lines of a source** are those of its lines that are neither blank nor a
comment, in their order; each has the number of its line and the text between the white space in
front of it, which its indent counts, and the white space behind. It makes no difference whether
lines end in a line feed or in a carriage return and a line feed. -/
theorem significant_lines (src : Bytes) :
    (∃ raws : List Bytes, List.intercalate (utf8 "\n") raws = src ∧
      (∀ raw ∈ raws, octet '\n' ∉ raw) ∧
      ∀ l, l ∈ ofSource src ↔
        ∃ i raw, raws[i]? = some raw ∧ ¬raw.Ignored ∧ l.IsReadFrom (i + 1) raw) ∧
    (ofSource src).Pairwise (fun l m => l.number < m.number) ∧
    ofSource src.withReturns = ofSource src := by
  have hfeed : ∀ raw ∈ src.splitOn (octet '\n'), octet '\n' ∉ raw := fun _ =>
    Bytes.notMem_of_mem_splitOn
  have hsource : List.intercalate (utf8 "\n") (src.splitOn (octet '\n')) = src :=
    List.intercalate_splitOn (octet '\n')
  refine ⟨⟨_, hsource, hfeed, fun l => ⟨fun hl => ?_, ?_⟩⟩, ofRaws_pairwise 1 _, ?_⟩
  · obtain ⟨i, raw, hraw, hl⟩ := exists_raw_of_mem_ofSource hl
    exact ⟨i, raw, hraw, (ofRaw?_eq_some_iff (hfeed raw (List.mem_of_getElem? hraw))).mp hl⟩
  · rintro ⟨i, raw, hraw, hl⟩
    refine mem_ofRaws_of_ofRaw? hraw ?_
    rw [Nat.add_comm]
    exact (ofRaw?_eq_some_iff (hfeed raw (List.mem_of_getElem? hraw))).mpr hl
  · have hends := Bytes.forall₂_sameButEnd_returns hfeed
    rw [← Bytes.withReturns_intercalate hfeed, hsource] at hends
    exact ofRaws_of_sameButEnd hends 1

end Line

end LiveMarkup

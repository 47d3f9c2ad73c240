import LiveMarkup.Proofs.Text.Characters
import LiveMarkup.Text.Nesting

/-!
# The parts of a text

What the scanners hand on is never changed: it stands somewhere in the text it was taken from, and
it is cut out without damage to its characters. `LiveMarkup.Bytes.IsPart` says both, and each
scanner has its lemma here. What has no octet of some kind has no part with one
(`LiveMarkup.Bytes.IsPart.notMem`), and a part of a well-formed text is well-formed.

Most cuts are at an octet of ASCII. At the margins of a text and between its words the white space
may be of any script, and there the characters are followed.
-/

namespace LiveMarkup

namespace Bytes

/-- **A part of a text**: it stands in the text somewhere, and it is well-formed if the text is. -/
structure IsPart (w s : Bytes) : Prop where
  inner : w <:+: s
  valid : Utf8.isValid s → Utf8.isValid w

namespace IsPart

@[refl] theorem refl (s : Bytes) : IsPart s s := ⟨List.infix_rfl, id⟩

theorem trans {u w s : Bytes} (h : IsPart u w) (h' : IsPart w s) : IsPart u s :=
  ⟨h.inner.trans h'.inner, h.valid ∘ h'.valid⟩

theorem notMem {w s : Bytes} (h : IsPart w s) {b : UInt8} (hb : b ∉ s) : b ∉ w :=
  fun hw => hb (h.inner.subset hw)

end IsPart

/-! ### Cuts -/

theorem isPart_nil (s : Bytes) : IsPart [] s :=
  ⟨List.nil_infix, fun _ => by rw [Utf8.isValid, Utf8.chars_nil]; rfl⟩

section Cut

variable {s t : Bytes} (h : Utf8.IsCut s t)

include h

/-- What stands in front of a cut is a part. -/
theorem isPart_left : IsPart s (s ++ t) := by
  refine ⟨(List.prefix_append s t).isInfix, fun hvalid => ?_⟩
  rw [Utf8.isValid_of_isCut h, Bool.and_eq_true] at hvalid
  exact hvalid.1

/-- What stands behind a cut is a part. -/
theorem isPart_right : IsPart t (s ++ t) := by
  refine ⟨(List.suffix_append s t).isInfix, fun hvalid => ?_⟩
  rw [Utf8.isValid_of_isCut h, Bool.and_eq_true] at hvalid
  exact hvalid.2

end Cut

section Octet

variable {b : UInt8} (hb : b.toNat < 0x80)

include hb

/-- What stands in front of an ASCII octet is a part. -/
theorem isPart_before (s t : Bytes) : IsPart s (s ++ b :: t) := isPart_left (Utf8.isCut_cons s hb t)

/-- What stands behind an ASCII octet is a part. -/
theorem isPart_after (s t : Bytes) : IsPart t (s ++ b :: t) := by
  rw [List.append_cons]
  exact isPart_right (Utf8.isCut_concat s hb t)

theorem isPart_tail (s : Bytes) : IsPart s (b :: s) := isPart_after hb [] s

theorem isPart_dropLast {s : Bytes} (h : s.getLast? = some b) : IsPart s.dropLast s := by
  obtain ⟨t, rfl⟩ := List.getLast?_eq_some_iff.mp h
  rw [List.dropLast_concat]
  exact isPart_before hb t []

/-- Pieces joined by an ASCII octet are parts of the whole. -/
theorem isPart_of_mem_intercalate {ws : List Bytes} {w : Bytes} (h : w ∈ ws) :
    IsPart w (List.intercalate [b] ws) := by
  induction ws with
  | nil => exact absurd h (by simp)
  | cons v ws ih =>
    cases ws with
    | nil =>
      obtain rfl := List.mem_singleton.mp h
      rw [List.intercalate_singleton]
    | cons u ws =>
      rw [List.intercalate_cons_cons, List.append_assoc, List.singleton_append]
      rcases List.mem_cons.mp h with rfl | h
      · exact isPart_before hb w _
      · exact (ih h).trans (isPart_after hb v _)

/-- The pieces between the occurrences of an ASCII octet are parts. -/
theorem isPart_of_mem_splitOn {s w : Bytes} (h : w ∈ s.splitOn b) : IsPart w s := by
  have hpart := isPart_of_mem_intercalate hb h
  rwa [List.intercalate_splitOn] at hpart

end Octet

section Class

variable {p : UInt8 → Bool} (hp : ∀ b, p b → b.toNat < 0x80)

include hp

/-- Behind octets of a class that is ASCII stands a part. -/
theorem isPart_of_append {s : Bytes} (hs : s.all p) (t : Bytes) : IsPart t (s ++ t) := by
  refine isPart_right (Utf8.isCut_of_isValid (Utf8.isValid_of_ascii ?_) t)
  rw [List.all_eq_true] at hs ⊢
  exact fun b hb => decide_eq_true (hp b (hs b hb))

theorem isPart_dropWhile (s : Bytes) : IsPart (s.dropWhile p) s := by
  have hpart := isPart_of_append hp (List.all_takeWhile (l := s)) (s.dropWhile p)
  rwa [List.takeWhile_append_dropWhile] at hpart

theorem isPart_dropWhileEnd (s : Bytes) : IsPart (s.reverse.dropWhile p).reverse s := by
  have hsplit : s = (s.reverse.dropWhile p).reverse ++ (s.reverse.takeWhile p).reverse := by
    rw [← List.reverse_append, List.takeWhile_append_dropWhile, List.reverse_reverse]
  have hend : (s.reverse.takeWhile p).reverse.all p := by
    rw [List.all_reverse]
    exact List.all_takeWhile
  generalize (s.reverse.takeWhile p).reverse = e at hsplit hend
  generalize (s.reverse.dropWhile p).reverse = w at hsplit ⊢
  subst hsplit
  cases e with
  | nil => rw [List.append_nil]
  | cons b e => exact isPart_before (hp b (List.all_eq_true.mp hend b List.mem_cons_self)) w e

end Class

theorem isPart_dropReturn (s : Bytes) : IsPart s.dropReturn s := by
  rw [dropReturn]
  split
  · rename_i h
    exact isPart_dropLast (by decide) h
  · exact IsPart.refl s

/-! ### Margins and words -/

theorem isPart_trim (s : Bytes) : IsPart s.trim s := by
  refine ⟨(trimEnd_isPrefix (trimStart s)).isInfix.trans (trimStart_suffix s).isInfix,
    fun hvalid => ?_⟩
  obtain ⟨before, after, hchars, -⟩ := chars_trim s
  rw [Utf8.isValid, hchars, List.all_append, List.all_append, Bool.and_eq_true,
    Bool.and_eq_true] at hvalid
  exact hvalid.1.2

/-- The words that are found behind a part of one. -/
theorem isPart_of_mem_wordsFrom {word s : Bytes} (hcut : Utf8.IsCut word s) {w : Bytes}
    (h : w ∈ wordsFrom word s) : IsPart w (word ++ s) := by
  induction s using Utf8.chars.induct generalizing word with
  | case1 s hs =>
    obtain rfl := Utf8.eq_nil_of_uncons? hs
    rw [wordsFrom_nil] at h
    split at h
    · exact absurd h (by simp)
    · rw [List.mem_singleton.mp h, List.append_nil]
  | case2 s c r hs ih =>
    have hsplit := take_append_of_uncons? hs
    obtain ⟨hmoved, -⟩ := Utf8.IsCut.move (s := word) (c := c)
      (p := s.take (s.length - r.length)) (r := r) (by rwa [hsplit]) (by rwa [hsplit])
    -- What is left behind the character is a part, and so are its words.
    have hrest : IsPart r (word ++ s) := by
      have hpart := isPart_right hmoved
      rwa [List.append_assoc, hsplit] at hpart
    have hnext (h : w ∈ wordsFrom [] r) : IsPart w (word ++ s) :=
      (ih (Utf8.isCut_nil r) h).trans hrest
    rw [wordsFrom_of_uncons? hs] at h
    split at h
    · split at h
      · exact hnext h
      · rcases List.mem_cons.mp h with rfl | h
        · exact isPart_left hcut
        · exact hnext h
    · have hpart := ih hmoved h
      rwa [List.append_assoc, hsplit] at hpart

/-- **The words of a text are parts of it.** -/
theorem isPart_of_mem_words {s w : Bytes} (h : w ∈ words s) : IsPart w s :=
  isPart_of_mem_wordsFrom (Utf8.isCut_nil s) h

end Bytes

/-! ### Splitting and cutting at the top level -/

namespace Nesting

theorem splitFrom_ne_nil (sep : UInt8) (n : Nesting) (s : Bytes) : splitFrom sep n s ≠ [] := by
  induction s generalizing n with
  | nil => simp [splitFrom]
  | cons b s ih =>
    rw [splitFrom]
    split
    · simp
    · cases h : splitFrom sep (n.step b) s with
      | nil => exact absurd h (ih _)
      | cons w ws => simp

theorem intercalate_modifyHead (b : UInt8) (sep : Bytes) {ws : List Bytes} (h : ws ≠ []) :
    List.intercalate sep (ws.modifyHead (b :: ·)) = b :: List.intercalate sep ws := by
  obtain ⟨w, ws, rfl⟩ := List.exists_cons_of_ne_nil h
  rw [List.modifyHead_cons]
  cases ws with
  | nil => rw [List.intercalate_singleton, List.intercalate_singleton]
  | cons v ws =>
    rw [List.intercalate_cons_cons, List.intercalate_cons_cons]
    rfl

/-- **Splitting loses nothing** but the separators. -/
theorem intercalate_splitFrom (sep : UInt8) (n : Nesting) (s : Bytes) :
    List.intercalate [sep] (splitFrom sep n s) = s := by
  induction s generalizing n with
  | nil => rfl
  | cons b s ih =>
    rw [splitFrom]
    split
    · rename_i h
      rw [List.intercalate_cons_of_ne_nil (splitFrom_ne_nil sep n s), ih, h.1]
      rfl
    · rw [intercalate_modifyHead _ _ (splitFrom_ne_nil sep _ s), ih]

theorem isPart_of_mem_split {sep : UInt8} (hsep : sep.toNat < 0x80) {s w : Bytes}
    (h : w ∈ split sep s) : Bytes.IsPart w s := by
  have hpart := Bytes.isPart_of_mem_intercalate hsep h
  rwa [split, intercalate_splitFrom] at hpart

/-- **Cutting loses nothing** but the separator. -/
theorem eq_of_cutFrom? {sep : UInt8} {n : Nesting} {s before after : Bytes}
    (h : cutFrom? sep n s = some (before, after)) : s = before ++ sep :: after := by
  induction s generalizing n before with
  | nil => exact absurd h (by simp [cutFrom?])
  | cons b s ih =>
    rw [cutFrom?] at h
    split at h
    · rename_i hsep
      obtain ⟨rfl, rfl⟩ : [] = before ∧ s = after := by simpa using h
      rw [hsep.1, List.nil_append]
    · obtain ⟨y, hy, heq⟩ := Option.map_eq_some_iff.mp h
      obtain ⟨rfl, rfl⟩ : b :: y.1 = before ∧ y.2 = after := by simpa using heq
      rw [List.cons_append, ← ih hy]

end Nesting

end LiveMarkup

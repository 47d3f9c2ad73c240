import LiveMarkup.Proofs.Text.Margins

/-!
# The characters of the parts of a text

A text is cut into parts all the time: into lines, at its margins, into words. As long as no
character is read from both sides of a cut (`LiveMarkup.Utf8.IsCut`), the characters of the parts
are the characters of the text. That is so in front of a character, behind a well-formed text, and
on either side of an ASCII octet; and a cut can be moved on by one character
(`LiveMarkup.Utf8.IsCut.move`), which is how the parts of an ill-formed text are followed.

So the characters of a trimmed text are those of the text without the white space at its ends
(`LiveMarkup.Bytes.chars_trim`), and the words of a text are not empty and have no white space
(`LiveMarkup.Bytes.isPlainWord_of_mem_words`). Words with a space between them are found again
(`LiveMarkup.Bytes.words_intercalate`).
-/

namespace LiveMarkup

namespace Utf8

/-! ### Cuts -/

/-- **A text can be cut** into two parts if no character is read from both of them. -/
def IsCut (s t : Bytes) : Prop := chars (s ++ t) = chars s ++ chars t

theorem isCut_nil (t : Bytes) : IsCut [] t := by
  rw [IsCut, List.nil_append, chars_nil, List.nil_append]

/-- What starts a new character can be cut off. -/
theorem isCut_of_head? (s : Bytes) {t : Bytes} (ht : t.head?.any isContinuation = false) :
    IsCut s t := by
  rw [IsCut]
  induction s using chars.induct with
  | case1 s hs =>
    obtain rfl := eq_nil_of_uncons? hs
    rw [List.nil_append, chars_nil, List.nil_append]
  | case2 s c r hs ih =>
    rw [chars_of_uncons? (uncons?_append hs ht), ih, chars_of_uncons? hs, List.cons_append]

theorem isContinuation_of_lt {b : UInt8} (hb : b.toNat < 0x80) : isContinuation b = false := by
  rw [isContinuation, Bool.and_eq_false_iff, decide_eq_false_iff_not]
  exact Or.inl (Nat.not_le_of_lt hb)

/-- **A text can be cut in front of an ASCII octet.** -/
theorem isCut_cons (s : Bytes) {b : UInt8} (hb : b.toNat < 0x80) (t : Bytes) :
    IsCut s (b :: t) :=
  isCut_of_head? s (isContinuation_of_lt hb)

theorem chars_cons_of_lt {b : UInt8} (hb : b.toNat < 0x80) (t : Bytes) :
    chars (b :: t) = some (Char.ofNat b.toNat) :: chars t := by
  have h := uncons?_encode (Char.ofNat b.toNat) t
  rw [encode_ofNat hb] at h
  exact chars_of_uncons? h

/-- **A text can be cut behind an ASCII octet.** -/
theorem isCut_concat (s : Bytes) {b : UInt8} (hb : b.toNat < 0x80) (t : Bytes) :
    IsCut (s ++ [b]) t := by
  have hleft : chars (s ++ [b]) = chars s ++ chars [b] := isCut_cons s hb []
  have hwhole : chars (s ++ (b :: t)) = chars s ++ chars (b :: t) := isCut_cons s hb t
  rw [IsCut, hleft, List.append_assoc, List.singleton_append, hwhole, chars_cons_of_lt hb,
    chars_cons_of_lt hb, chars_nil, List.append_assoc, List.singleton_append]

/-- **A text can be cut behind a well-formed one.** -/
theorem isCut_of_isValid {s : Bytes} (hs : isValid s) (t : Bytes) : IsCut s t := by
  obtain ⟨cs, rfl⟩ := isValid_iff.mp hs
  clear hs
  rw [IsCut]
  induction cs with
  | nil => rw [encodeAll_nil, List.nil_append, chars_nil, List.nil_append]
  | cons c cs ih =>
    rw [encodeAll_cons, List.append_assoc, chars_of_uncons? (uncons?_encode c _), ih,
      chars_of_uncons? (uncons?_encode c _), List.cons_append]

theorem isValid_of_isCut {s t : Bytes} (h : IsCut s t) :
    isValid (s ++ t) = (isValid s && isValid t) := by
  rw [isValid, h, List.all_append, isValid, isValid]

theorem isValid_cons {b : UInt8} (hb : b.toNat < 0x80) (s : Bytes) :
    isValid (b :: s) = isValid s := by
  rw [isValid, chars_cons_of_lt hb, List.all_cons, Option.isSome_some, Bool.true_and, isValid]

/-- **An ASCII octet divides a text** into two that are well-formed or not for themselves. -/
theorem isValid_append_cons {b : UInt8} (hb : b.toNat < 0x80) (s t : Bytes) :
    isValid (s ++ b :: t) = (isValid s && isValid t) := by
  rw [isValid_of_isCut (isCut_cons s hb t), isValid_cons hb]

theorem isValid_append_left {s : Bytes} (hs : isValid s) (t : Bytes) :
    isValid (s ++ t) = isValid t := by
  rw [isValid_of_isCut (isCut_of_isValid hs t), hs, Bool.true_and]

/-- The octets of a literal are well-formed. -/
theorem isValid_utf8 (s : String) : isValid (utf8 s) := by
  obtain ⟨cs, hcs⟩ := s.isValidUTF8
  refine isValid_iff.mpr ⟨cs, ?_⟩
  rw [utf8, String.toUTF8_eq_toByteArray, hcs, List.utf8Encode, List.data_toByteArray]
  rfl

theorem isValid_flatten {ss : List Bytes} (h : ∀ s ∈ ss, isValid s) : isValid ss.flatten := by
  induction ss with
  | nil => exact isValid_utf8 ""
  | cons s ss ih =>
    rw [List.forall_mem_cons] at h
    exact isValid_append h.1 (ih h.2)

theorem isValid_intercalate {sep : Bytes} (hsep : isValid sep) {ws : List Bytes}
    (h : ∀ w ∈ ws, isValid w) : isValid (List.intercalate sep ws) :=
  Bytes.intercalate_induction (isValid_utf8 "") isValid_append hsep h

/-! ### Moving a cut -/

/-- What cannot be read as a character is one octet. -/
theorem eq_cons_of_uncons?_none {s r : Bytes} (h : uncons? s = some (none, r)) :
    ∃ b, s = b :: r := by
  cases s with
  | nil => exact absurd h (by simp [uncons?])
  | cons b s =>
    rw [uncons?] at h
    split at h
    · exact absurd h (by simp)
    · split at h
      · exact absurd h (by simp)
      · obtain rfl : s = r := by simpa using h
        exact ⟨b, rfl⟩

/-- What is read from a text is read from any part of it that goes beyond it. -/
theorem uncons?_of_append {s t r : Bytes} {c : Option Char}
    (h : uncons? (s ++ t) = some (c, r ++ t)) : uncons? s = some (c, r) := by
  cases c with
  | some c =>
    have hs := eq_encode_of_uncons? h
    rw [← List.append_assoc] at hs
    rw [List.append_cancel_right hs, uncons?_encode]
  | none =>
    obtain ⟨b, hs⟩ := eq_cons_of_uncons?_none h
    rw [← List.cons_append] at hs
    obtain rfl := List.append_cancel_right hs
    cases hr : uncons? (b :: r) with
    | none => exact absurd (eq_nil_of_uncons? hr) (by simp)
    | some y =>
      obtain ⟨d, r'⟩ := y
      cases d with
      | some d =>
        rw [eq_encode_of_uncons? hr, List.append_assoc, uncons?_encode] at h
        exact absurd h (by simp)
      | none =>
        obtain ⟨b', hb'⟩ := eq_cons_of_uncons?_none hr
        rw [(List.cons.inj hb').2]

/-- Where a text can be cut, its characters are read as if it ended there. -/
theorem IsCut.uncons? {s t r : Bytes} {c : Option Char} (h : IsCut s t)
    (hs : uncons? s = some (c, r)) : Utf8.uncons? (s ++ t) = some (c, r ++ t) ∧ IsCut r t := by
  have hread : Utf8.uncons? (s ++ t) = some (c, r ++ t) := by
    cases c with
    | some c => rw [eq_encode_of_uncons? hs, List.append_assoc, uncons?_encode]
    | none =>
      cases hst : Utf8.uncons? (s ++ t) with
      | none =>
        rw [(List.append_eq_nil_iff.mp (eq_nil_of_uncons? hst)).1] at hs
        exact absurd hs (by simp [Utf8.uncons?])
      | some y =>
        obtain ⟨d, r'⟩ := y
        rw [IsCut, chars_of_uncons? hst, chars_of_uncons? hs, List.cons_append] at h
        obtain ⟨rfl, -⟩ := List.cons.inj h
        obtain ⟨b, rfl⟩ := eq_cons_of_uncons?_none hs
        obtain ⟨b', hb'⟩ := eq_cons_of_uncons?_none hst
        rw [List.cons_append] at hb'
        rw [(List.cons.inj hb').2]
  refine ⟨hread, ?_⟩
  rw [IsCut, chars_of_uncons? hread, chars_of_uncons? hs, List.cons_append] at h
  exact (List.cons.inj h).2

/-- **A cut can be moved on by one character.** -/
theorem IsCut.move {s p r : Bytes} {c : Option Char} (h : IsCut s (p ++ r))
    (hp : Utf8.uncons? (p ++ r) = some (c, r)) :
    IsCut (s ++ p) r ∧ chars (s ++ p) = chars s ++ [c] := by
  induction s using chars.induct with
  | case1 s hs =>
    obtain rfl := eq_nil_of_uncons? hs
    have hone : chars p = [c] := by
      have hself : Utf8.uncons? p = some (c, []) := uncons?_of_append (t := r) (by simpa using hp)
      rw [chars_of_uncons? hself, chars_nil]
    rw [List.nil_append, chars_nil, List.nil_append, IsCut, chars_of_uncons? hp, hone]
    exact ⟨rfl, rfl⟩
  | case2 s d s' hs ih =>
    obtain ⟨hread, hcut⟩ := h.uncons? hs
    obtain ⟨hmoved, hchars⟩ := ih hcut
    have hpart : Utf8.uncons? (s ++ p) = some (d, s' ++ p) := by
      refine uncons?_of_append (t := r) ?_
      rw [List.append_assoc, List.append_assoc]
      exact hread
    rw [← List.append_assoc, ← List.append_assoc] at hread
    constructor
    · rw [IsCut, chars_of_uncons? hread, chars_of_uncons? hpart, hmoved, List.cons_append]
    · rw [chars_of_uncons? hpart, hchars, chars_of_uncons? hs, List.cons_append]

end Utf8

namespace Bytes

/-! ### Margins -/

/-- The characters of a text are the white space in front, as many as the indent, and those of what
is left. -/
theorem chars_trimStart (s : Bytes) : ∃ ws, Utf8.chars s = ws ++ Utf8.chars (trimStart s) ∧
    ws.length = indentWidth s ∧ ∀ c ∈ ws, isBlank? c := by
  induction s using trimStart.induct with
  | case1 s hs =>
    obtain rfl := Utf8.eq_nil_of_uncons? hs
    refine ⟨[], by rw [trimStart_nil, List.nil_append], ?_, by simp⟩
    rw [indentWidth_of_head (by simp), List.length_nil]
  | case2 s c r hs hc ih =>
    obtain ⟨ws, hchars, hlength, hblank⟩ := ih
    refine ⟨c :: ws, ?_, ?_, ?_⟩
    · rw [trimStart_of_uncons? hs, if_pos hc, Utf8.chars_of_uncons? hs, hchars, List.cons_append]
    · rw [indentWidth_of_uncons? hs, if_pos hc, List.length_cons, hlength]
    · exact List.forall_mem_cons.mpr ⟨hc, hblank⟩
  | case3 s c r hs hc =>
    refine ⟨[], ?_, ?_, by simp⟩
    · rw [trimStart_of_uncons? hs, if_neg hc, List.nil_append]
    · rw [indentWidth_of_uncons? hs, if_neg hc, List.length_nil]

/-- What is left does not start with white space. -/
theorem head?_chars_trimStart (s : Bytes) :
    (Utf8.chars (trimStart s)).head?.any isBlank? = false := by
  induction s using trimStart.induct with
  | case1 s hs =>
    obtain rfl := Utf8.eq_nil_of_uncons? hs
    rw [trimStart_nil, Utf8.chars_nil]
    rfl
  | case2 s c r hs hc ih => rwa [trimStart_of_uncons? hs, if_pos hc]
  | case3 s c r hs hc =>
    rw [trimStart_of_uncons? hs, if_neg hc, Utf8.chars_of_uncons? hs]
    simpa using hc

/-- The characters of a text are those of the text without the white space at its end, and white
space. -/
theorem chars_trimEnd (s : Bytes) :
    ∃ ws, Utf8.chars s = Utf8.chars (trimEnd s) ++ ws ∧ ∀ c ∈ ws, isBlank? c := by
  induction s using Utf8.chars.induct with
  | case1 s hs =>
    obtain rfl := Utf8.eq_nil_of_uncons? hs
    exact ⟨[], by rw [trimEnd_nil, List.append_nil], by simp⟩
  | case2 s c r hs ih =>
    obtain ⟨ws, hchars, hblank⟩ := ih
    rw [trimEnd_of_uncons? hs]
    split
    · rename_i hempty
      rw [Bool.and_eq_true, List.isEmpty_iff] at hempty
      rw [hempty.1, Utf8.chars_nil, List.nil_append] at hchars
      refine ⟨Utf8.chars s, by rw [Utf8.chars_nil, List.nil_append], ?_⟩
      rw [Utf8.chars_of_uncons? hs, hchars]
      exact List.forall_mem_cons.mpr ⟨hempty.2, hblank⟩
    · obtain ⟨t, ht⟩ := trimEnd_isPrefix r
      -- The character is read from the trimmed text as well, which goes beyond it.
      have hread : Utf8.uncons? (s.take (s.length - r.length) ++ trimEnd r) =
          some (c, trimEnd r) := by
        refine Utf8.uncons?_of_append (t := t) ?_
        rw [List.append_assoc, ht, take_append_of_uncons? hs, hs]
      exact ⟨ws, by rw [Utf8.chars_of_uncons? hread, Utf8.chars_of_uncons? hs, hchars,
        List.cons_append], hblank⟩

/-- **The characters of a trimmed text** stand behind the indent, with white space around them. -/
theorem chars_trim (s : Bytes) : ∃ before after,
    Utf8.chars s = before ++ Utf8.chars (trim s) ++ after ∧
    before.length = indentWidth s ∧ (∀ c ∈ before, isBlank? c) ∧ ∀ c ∈ after, isBlank? c := by
  obtain ⟨before, hchars, hlength, hbefore⟩ := chars_trimStart s
  obtain ⟨after, hrest, hafter⟩ := chars_trimEnd (trimStart s)
  exact ⟨before, after, by rw [hchars, hrest, trim, List.append_assoc], hlength, hbefore, hafter⟩

/-- A trimmed text does not start with white space. -/
theorem head?_chars_trim (s : Bytes) : (Utf8.chars (trim s)).head?.any isBlank? = false := by
  have hhead := head?_chars_trimStart s
  obtain ⟨after, hrest, -⟩ := chars_trimEnd (trimStart s)
  rw [hrest] at hhead
  rw [trim]
  cases hchars : Utf8.chars (trimEnd (trimStart s)) with
  | nil => rfl
  | cons c cs =>
    rw [hchars, List.cons_append] at hhead
    exact hhead

/-! ### Words -/

/-- Whether a text can be a word: it is not empty and has no white space. -/
def isPlainWord (s : Bytes) : Bool := !s.isEmpty && (Utf8.chars s).all fun c => !isBlank? c

theorem wordsFrom_nil (word : Bytes) : wordsFrom word [] = if word.isEmpty then [] else [word] := by
  rw [wordsFrom]
  rfl

theorem wordsFrom_of_uncons? {s r : Bytes} {c : Option Char} (h : Utf8.uncons? s = some (c, r))
    (word : Bytes) : wordsFrom word s =
      if isBlank? c then if word.isEmpty then wordsFrom [] r else word :: wordsFrom [] r
      else wordsFrom (word ++ s.take (s.length - r.length)) r := by
  rw [wordsFrom.eq_def]
  split
  · rename_i hnone
    exact absurd (hnone.symm.trans h) (by simp)
  · rename_i c' r' hsome
    obtain ⟨rfl, rfl⟩ : c' = c ∧ r' = r := by simpa using hsome.symm.trans h
    rfl

/-- What was read of a word has no white space, and neither have the words that follow. -/
theorem isPlainWord_of_mem_wordsFrom {word s : Bytes} (hcut : Utf8.IsCut word s)
    (hword : (Utf8.chars word).all fun c => !isBlank? c) {w : Bytes} (h : w ∈ wordsFrom word s) :
    isPlainWord w := by
  induction s using Utf8.chars.induct generalizing word with
  | case1 s hs =>
    obtain rfl := Utf8.eq_nil_of_uncons? hs
    rw [wordsFrom_nil] at h
    split at h
    · exact absurd h (by simp)
    · rename_i hne
      obtain rfl := List.mem_singleton.mp h
      simp only [isPlainWord, hne, hword, Bool.not_false, Bool.and_true]
  | case2 s c r hs ih =>
    have hnil (h : w ∈ wordsFrom [] r) : isPlainWord w :=
      ih (Utf8.isCut_nil r) (by rw [Utf8.chars_nil]; rfl) h
    rw [wordsFrom_of_uncons? hs] at h
    split at h
    · split at h
      · exact hnil h
      · rename_i hne
        rcases List.mem_cons.mp h with rfl | h
        · simp only [isPlainWord, hne, hword, Bool.not_false, Bool.and_true]
        · exact hnil h
    · rename_i hblank
      have hsplit := take_append_of_uncons? hs
      obtain ⟨hmoved, hchars⟩ := Utf8.IsCut.move (s := word) (c := c)
        (p := s.take (s.length - r.length)) (r := r) (by rwa [hsplit]) (by rwa [hsplit])
      refine ih hmoved ?_ h
      rw [hchars, List.all_append, hword, List.all_cons, List.all_nil]
      simpa using hblank

/-- **The words of a text are words.** -/
theorem isPlainWord_of_mem_words {s w : Bytes} (h : w ∈ words s) : isPlainWord w :=
  isPlainWord_of_mem_wordsFrom (Utf8.isCut_nil s) (by rw [Utf8.chars_nil]; rfl) h

/-- A text without white space is read into the word at its start. -/
theorem wordsFrom_append {s t : Bytes} (hs : (Utf8.chars s).all fun c => !isBlank? c)
    (ht : t.head?.any Utf8.isContinuation = false) (word : Bytes) :
    wordsFrom word (s ++ t) = wordsFrom (word ++ s) t := by
  induction s using Utf8.chars.induct generalizing word with
  | case1 s h =>
    obtain rfl := Utf8.eq_nil_of_uncons? h
    rw [List.nil_append, List.append_nil]
  | case2 s c r h ih =>
    rw [Utf8.chars_of_uncons? h, List.all_cons, Bool.and_eq_true] at hs
    rw [wordsFrom_of_uncons? (Utf8.uncons?_append h ht), if_neg (by simpa using hs.1), ih hs.2,
      take_append_right (Utf8.length_of_uncons? h), List.append_assoc, take_append_of_uncons? h]

/-- **Words are found again** where a space stands between them. -/
theorem words_intercalate {ws : List Bytes} (h : ∀ w ∈ ws, isPlainWord w) :
    words (List.intercalate (utf8 " ") ws) = ws := by
  have hspace (r : Bytes) : Utf8.uncons? (utf8 " " ++ r) = some (some ' ', r) :=
    Utf8.uncons?_encode ' ' r
  rw [words]
  induction ws with
  | nil => exact wordsFrom_nil []
  | cons w ws ih =>
    rw [List.forall_mem_cons] at h
    obtain ⟨hne, hw⟩ := Bool.and_eq_true_iff.mp h.1
    have hne : w.isEmpty = false := by simpa using hne
    cases ws with
    | nil =>
      have hread := wordsFrom_append (t := []) hw rfl []
      rw [List.append_nil, List.nil_append, wordsFrom_nil, if_neg (by simp [hne])] at hread
      rwa [List.intercalate_singleton]
    | cons v ws =>
      rw [List.intercalate_cons_cons, List.append_assoc, wordsFrom_append hw rfl,
        wordsFrom_of_uncons? (hspace _), if_pos (by decide), List.nil_append,
        if_neg (by simp [hne]), ih h.2]

end Bytes

end LiveMarkup

import LiveMarkup.Proofs.Text.Blank

/-!
# White space in front of a text and behind it

A source need not be well-formed, so white space may follow the beginning of a character that is
never finished. It is read as white space all the same, since no character starts with an octet that
continues one (`LiveMarkup.Utf8.uncons?_append`).

So white space can be added to any text and taken away again: behind it, the trimmed text and the
indent do not change (`LiveMarkup.Bytes.trim_append_white`,
`LiveMarkup.Bytes.indentWidth_append_white`), and in front of it, the indent is the number of its
characters (`LiveMarkup.Bytes.trim_white_append`, `LiveMarkup.Bytes.indentWidth_white_append`).
-/

namespace LiveMarkup

namespace Utf8

/-! ### Reading on after any text -/

/-- Whether an octet stands only inside a character. -/
def isContinuation (b : UInt8) : Bool := 0x80 ≤ b.toNat && b.toNat < 0xc0

/-- A character starts with no octet that continues one, and all its further octets do. -/
theorem continuation_encode (c : Char) :
    ∃ b r, encode c = b :: r ∧ isContinuation b = false ∧ r.all isContinuation := by
  have hoctet (n k : Nat) (hlt : n + k < 0x100) : (UInt8.ofNat (n + k)).toNat = n + k := by
    rw [UInt8.toNat_ofNat', Nat.mod_eq_of_lt hlt]
  have hfirst (n k : Nat) (hk : 0xc0 ≤ k) (hlt : n + k < 0x100) :
      isContinuation (UInt8.ofNat (n + k)) = false := by
    simp only [isContinuation, hoctet n k hlt, Bool.and_eq_false_iff, decide_eq_false_iff_not]
    omega
  have hmore (n : Nat) (hn : n < 0x40) : isContinuation (UInt8.ofNat (n + 0x80)) = true := by
    simp only [isContinuation, hoctet n 0x80 (by omega), Bool.and_eq_true, decide_eq_true_eq]
    omega
  by_cases hc : c.toNat < 0x80
  · refine ⟨octet c, [], encode_of_lt hc, ?_, rfl⟩
    simp only [isContinuation, octet_toNat hc, Bool.and_eq_false_iff, decide_eq_false_iff_not]
    omega
  · have hnot : ¬c.val.toNat ≤ 0x7f := fun hle => hc (Nat.lt_succ_of_le hle)
    rw [encode, String.utf8EncodeChar]
    rw [if_neg hnot]
    split_ifs
    all_goals
      refine ⟨_, _, rfl, hfirst _ _ (by omega) (by omega), ?_⟩
      simp only [List.all_cons, List.all_nil, Bool.and_eq_true, and_true]
    · exact hmore _ (by omega)
    · exact ⟨hmore _ (by omega), hmore _ (by omega)⟩
    · exact ⟨hmore _ (by omega), hmore _ (by omega), hmore _ (by omega)⟩

/-- **What starts a new character does not go on with the one before.** -/
theorem uncons?_append {s r : Bytes} {c : Option Char} (h : uncons? s = some (c, r)) {t : Bytes}
    (ht : t.head?.any isContinuation = false) : uncons? (s ++ t) = some (c, r ++ t) := by
  cases c with
  | some c =>
    rw [eq_encode_of_uncons? h, List.append_assoc, uncons?_encode]
  | none =>
    cases s with
    | nil => exact absurd h (by simp [uncons?])
    | cons b s =>
      have hhead : ¬b < 0x80 ∧ head? (b :: s) = none ∧ s = r := by
        rw [uncons?] at h
        split at h
        · exact absurd h (by simp)
        · rename_i hb
          split at h
          · exact absurd h (by simp)
          · rename_i hnone
            exact ⟨hb, hnone, by simpa using h⟩
      obtain ⟨hb, hnone, rfl⟩ := hhead
      have hwhole : uncons? (b :: (s ++ t)) = some (none, s ++ t) := by
        cases hd : head? (b :: (s ++ t)) with
        | none => rw [uncons?, if_neg hb, hd]
        | some d =>
          -- The character would be finished in `t`, whose first octet continues none.
          have hread : uncons? (b :: (s ++ t)) =
              some (some d, (s ++ t).drop (d.utf8Size - 1)) := by
            rw [uncons?, if_neg hb, hd]
          have hall := eq_encode_of_uncons? hread
          generalize (s ++ t).drop (d.utf8Size - 1) = rest at hall
          rw [← List.cons_append] at hall
          rcases List.append_eq_append_iff.mp hall with ⟨e, he, hrest⟩ | ⟨e, he, hrest⟩
          · obtain ⟨b', r', henc, -, hcont⟩ := continuation_encode d
            cases e with
            | nil =>
              rw [List.append_nil] at he
              have hself := uncons?_encode d []
              rw [List.append_nil, he, uncons?, if_neg hb, hnone] at hself
              exact absurd hself (by simp)
            | cons x e =>
              rw [henc, List.cons_append] at he
              obtain ⟨-, rfl⟩ := List.cons.inj he
              have hx := List.all_eq_true.mp hcont x (by simp)
              rw [hrest, List.cons_append, List.head?_cons, Option.any_some, hx] at ht
              exact absurd ht (by simp)
          · have hself := uncons?_encode d e
            rw [← he, uncons?, if_neg hb, hnone] at hself
            exact absurd hself (by simp)
      exact hwhole

theorem suffix_of_uncons? {s r : Bytes} {c : Option Char} (h : uncons? s = some (c, r)) :
    r <:+ s := by
  cases s with
  | nil => exact absurd h (by simp [uncons?])
  | cons b s =>
    rw [uncons?] at h
    split at h
    · obtain ⟨-, rfl⟩ : _ ∧ s = r := by simpa using h
      exact List.suffix_cons b s
    · split at h
      · rename_i d _
        obtain ⟨-, rfl⟩ : _ ∧ s.drop (d.utf8Size - 1) = r := by simpa using h
        exact (List.drop_suffix _ s).trans (List.suffix_cons b s)
      · obtain ⟨-, rfl⟩ : _ ∧ s = r := by simpa using h
        exact List.suffix_cons b s

theorem eq_nil_of_uncons? {s : Bytes} (h : uncons? s = none) : s = [] := by
  cases s with
  | nil => rfl
  | cons b s =>
    rw [uncons?] at h
    split at h
    · exact absurd h (by simp)
    · split at h <;> exact absurd h (by simp)

end Utf8

namespace Bytes

/-! ### White space -/

/-- Whether a text is white space only. -/
def isWhite (s : Bytes) : Bool := (Utf8.chars s).all isBlank?

/-- White space is some white-space characters. -/
theorem isWhite_iff {s : Bytes} :
    s.isWhite ↔ ∃ cs : List Char, s = Utf8.encodeAll cs ∧ ∀ c ∈ cs, isBlank c := by
  constructor
  · intro h
    have hvalid : Utf8.isValid s := by
      refine List.all_eq_true.mpr fun c hc => ?_
      have hblank := List.all_eq_true.mp h c hc
      cases c with
      | none => exact absurd hblank (by simp [isBlank?])
      | some c => rfl
    obtain ⟨cs, rfl⟩ := Utf8.isValid_iff.mp hvalid
    rw [isWhite, Utf8.chars_encodeAll, List.all_map, List.all_eq_true] at h
    exact ⟨cs, rfl, h⟩
  · rintro ⟨cs, rfl, h⟩
    rw [isWhite, Utf8.chars_encodeAll, List.all_map, List.all_eq_true]
    exact h

theorem isContinuation_head?_of_isWhite {s : Bytes} (h : s.isWhite) :
    s.head?.any Utf8.isContinuation = false := by
  obtain ⟨cs, rfl, -⟩ := isWhite_iff.mp h
  cases cs with
  | nil => rfl
  | cons c cs =>
    obtain ⟨b, r, henc, hb, -⟩ := Utf8.continuation_encode c
    rw [Utf8.encodeAll_cons, henc]
    exact hb

theorem trimStart_nil : trimStart [] = [] := by
  rw [trimStart]
  rfl

section White

variable {w : Bytes} (hw : w.isWhite)

include hw

/-- **White space in front is taken off.** -/
theorem trimStart_white_append (s : Bytes) : trimStart (w ++ s) = trimStart s := by
  obtain ⟨cs, rfl, hcs⟩ := isWhite_iff.mp hw
  clear hw
  induction cs with
  | nil => rfl
  | cons c cs ih =>
    rw [List.forall_mem_cons] at hcs
    rw [Utf8.encodeAll_cons, List.append_assoc, trimStart_encode, if_pos hcs.1, ih hcs.2]

theorem trimStart_white : trimStart w = [] := by
  have h := trimStart_white_append hw []
  rwa [List.append_nil, trimStart_nil] at h

/-- **The characters of white space in front are counted.** -/
theorem indentWidth_white_append (s : Bytes) :
    indentWidth (w ++ s) = Utf8.count w + indentWidth s := by
  obtain ⟨cs, rfl, hcs⟩ := isWhite_iff.mp hw
  clear hw
  rw [Utf8.count, Utf8.chars_encodeAll, List.length_map]
  induction cs with
  | nil => rw [Utf8.encodeAll_nil, List.nil_append, List.length_nil, Nat.zero_add]
  | cons c cs ih =>
    rw [List.forall_mem_cons] at hcs
    rw [Utf8.encodeAll_cons, List.append_assoc, indentWidth_encode, if_pos hcs.1, ih hcs.2,
      List.length_cons]
    omega

theorem trimEnd_white : trimEnd w = [] := by
  obtain ⟨cs, rfl, hcs⟩ := isWhite_iff.mp hw
  clear hw
  induction cs with
  | nil => exact trimEnd_nil
  | cons c cs ih =>
    rw [List.forall_mem_cons] at hcs
    rw [Utf8.encodeAll_cons, trimEnd_encode, ih hcs.2, hcs.1]
    rfl

theorem trim_white_append (s : Bytes) : trim (w ++ s) = trim s := by
  rw [trim, trimStart_white_append hw, trim]

theorem trim_white : trim w = [] := by
  rw [trim, trimStart_white hw, trimEnd_nil]

end White

/-! ### Behind a text -/

theorem trimStart_of_uncons? {s r : Bytes} {c : Option Char} (h : Utf8.uncons? s = some (c, r)) :
    trimStart s = if isBlank? c then trimStart r else s := by
  rw [trimStart.eq_def]
  split
  · rename_i hnone
    exact absurd (hnone.symm.trans h) (by simp)
  · rename_i c' r' hsome
    obtain ⟨rfl, rfl⟩ : c' = c ∧ r' = r := by simpa using hsome.symm.trans h
    rfl

theorem trimEnd_of_uncons? {s r : Bytes} {c : Option Char} (h : Utf8.uncons? s = some (c, r)) :
    trimEnd s = if (trimEnd r).isEmpty && isBlank? c then []
      else s.take (s.length - r.length) ++ trimEnd r := by
  rw [trimEnd.eq_def]
  split
  · rename_i hnone
    exact absurd (hnone.symm.trans h) (by simp)
  · rename_i c' r' hsome
    obtain ⟨rfl, rfl⟩ : c' = c ∧ r' = r := by simpa using hsome.symm.trans h
    rfl

theorem indentWidth_of_uncons? {s r : Bytes} {c : Option Char} (h : Utf8.uncons? s = some (c, r)) :
    indentWidth s = if isBlank? c then indentWidth r + 1 else 0 := by
  rw [indentWidth.eq_def]
  split
  · rename_i hnone
    exact absurd (hnone.symm.trans h) (by simp)
  · rename_i c' r' hsome
    obtain ⟨rfl, rfl⟩ : c' = c ∧ r' = r := by simpa using hsome.symm.trans h
    rfl

theorem trimStart_suffix (s : Bytes) : trimStart s <:+ s := by
  induction s using trimStart.induct with
  | case1 s hs =>
    obtain rfl := Utf8.eq_nil_of_uncons? hs
    exact ⟨[], trimStart_nil⟩
  | case2 s c r hs hc ih =>
    rw [trimStart_of_uncons? hs, if_pos hc]
    exact ih.trans (Utf8.suffix_of_uncons? hs)
  | case3 s c r hs hc =>
    exact ⟨[], (trimStart_of_uncons? hs).trans (if_neg hc)⟩

theorem take_append_of_uncons? {s r : Bytes} {c : Option Char} (h : Utf8.uncons? s = some (c, r)) :
    s.take (s.length - r.length) ++ r = s := by
  obtain ⟨t, rfl⟩ := Utf8.suffix_of_uncons? h
  rw [List.length_append, Nat.add_sub_cancel, List.take_left]

/-- What is read from a text takes the same octets off it when more follows. -/
theorem take_append_right {s r t : Bytes} (h : r.length < s.length) :
    (s ++ t).take ((s ++ t).length - (r ++ t).length) = s.take (s.length - r.length) := by
  have hsub : (s ++ t).length - (r ++ t).length = s.length - r.length := by
    rw [List.length_append, List.length_append]
    omega
  rw [hsub, List.take_append_of_le_length (by omega)]

theorem trimEnd_isPrefix (s : Bytes) : trimEnd s <+: s := by
  induction s using Utf8.chars.induct with
  | case1 s hs =>
    obtain rfl := Utf8.eq_nil_of_uncons? hs
    exact ⟨[], (List.append_nil _).trans trimEnd_nil⟩
  | case2 s c r hs ih =>
    rw [trimEnd_of_uncons? hs]
    split
    · exact List.nil_prefix
    · have hpre := (List.prefix_append_right_inj (s.take (s.length - r.length))).mpr ih
      rwa [take_append_of_uncons? hs] at hpre

/-- Trimming adds nothing. -/
theorem mem_of_mem_trim {s : Bytes} {b : UInt8} (h : b ∈ trim s) : b ∈ s :=
  (trimStart_suffix s).subset ((trimEnd_isPrefix _).subset h)

/-- A text that ends in a solid octet has no white space at its end. -/
theorem trimEnd_concat_solid (s : Bytes) {e : UInt8} (he : isSolid e) :
    trimEnd (s ++ [e]) = s ++ [e] := by
  have hcont : ([e] : Bytes).head?.any Utf8.isContinuation = false := by
    rw [isSolid, Bool.and_eq_true, decide_eq_true_eq] at he
    simp only [List.head?_cons, Option.any_some, Utf8.isContinuation, Bool.and_eq_false_iff,
      decide_eq_false_iff_not]
    omega
  induction s using Utf8.chars.induct with
  | case1 s hs =>
    obtain rfl := Utf8.eq_nil_of_uncons? hs
    have htrim := trimEnd_encode (Char.ofNat e.toNat) []
    rwa [encode_of_isSolid he, isBlank_of_isSolid he, Bool.and_false, if_neg (by simp),
      trimEnd_nil] at htrim
  | case2 s c r hs ih =>
    have hwhole := Utf8.uncons?_append hs hcont
    rw [trimEnd_of_uncons? hwhole, ih, if_neg (by simp), take_append_of_uncons? hwhole]

/-- A text that does not start with white space has no indent. -/
theorem indentWidth_of_head {s : Bytes} (h : (Utf8.chars s).head?.any isBlank? = false) :
    indentWidth s = 0 := by
  cases hs : Utf8.uncons? s with
  | none =>
    rw [Utf8.eq_nil_of_uncons? hs, indentWidth]
    rfl
  | some y =>
    obtain ⟨c, r⟩ := y
    rw [Utf8.chars_of_uncons? hs] at h
    rw [indentWidth_of_uncons? hs, if_neg]
    simpa using h

section Append

variable {t : Bytes} (ht : t.head?.any Utf8.isContinuation = false)

include ht

/-- What is added behind white space stands in front. -/
theorem trimStart_append (s : Bytes) : trimStart (s ++ t) =
    if (trimStart s).isEmpty then trimStart t else trimStart s ++ t := by
  induction s using trimStart.induct with
  | case1 s hs =>
    obtain rfl := Utf8.eq_nil_of_uncons? hs
    rw [List.nil_append, trimStart_nil]
    rfl
  | case2 s c r hs hc ih =>
    rw [trimStart_of_uncons? hs, if_pos hc, trimStart_of_uncons? (Utf8.uncons?_append hs ht),
      if_pos hc, ih]
  | case3 s c r hs hc =>
    have hne : s.isEmpty = false := by
      cases s with
      | nil => exact absurd hs (by simp [Utf8.uncons?])
      | cons b s => rfl
    rw [trimStart_of_uncons? hs, if_neg hc, trimStart_of_uncons? (Utf8.uncons?_append hs ht),
      if_neg hc, hne, if_neg (by simp)]

/-- What is added behind a text is no indent, unless there is nothing else. -/
theorem indentWidth_append {s : Bytes} (hs : trimStart s ≠ []) :
    indentWidth (s ++ t) = indentWidth s := by
  induction s using trimStart.induct with
  | case1 s h =>
    obtain rfl := Utf8.eq_nil_of_uncons? h
    exact absurd trimStart_nil hs
  | case2 s c r h hc ih =>
    rw [trimStart_of_uncons? h, if_pos hc] at hs
    rw [indentWidth_of_uncons? h, if_pos hc, indentWidth_of_uncons? (Utf8.uncons?_append h ht),
      if_pos hc, ih hs]
  | case3 s c r h hc =>
    rw [indentWidth_of_uncons? h, if_neg hc, indentWidth_of_uncons? (Utf8.uncons?_append h ht),
      if_neg hc]

end Append

theorem trimStart_ne_nil {s : Bytes} (h : trim s ≠ []) : trimStart s ≠ [] :=
  fun hnil => h (by rw [trim, hnil, trimEnd_nil])

section AppendWhite

variable {w : Bytes} (hw : w.isWhite)

include hw

theorem trimEnd_append_white (s : Bytes) : trimEnd (s ++ w) = trimEnd s := by
  induction s using Utf8.chars.induct with
  | case1 s hs =>
    obtain rfl := Utf8.eq_nil_of_uncons? hs
    rw [List.nil_append, trimEnd_white hw, trimEnd_nil]
  | case2 s c r hs ih =>
    rw [trimEnd_of_uncons? hs,
      trimEnd_of_uncons? (Utf8.uncons?_append hs (isContinuation_head?_of_isWhite hw)), ih,
      take_append_right (Utf8.length_of_uncons? hs)]

/-- **White space behind a text is taken off**, whatever the text. -/
theorem trim_append_white (s : Bytes) : trim (s ++ w) = trim s := by
  rw [trim, trimStart_append (isContinuation_head?_of_isWhite hw), trim]
  split
  · rename_i hempty
    rw [List.isEmpty_iff.mp hempty, trimStart_white hw]
  · exact trimEnd_append_white hw _

/-- **White space behind a text is no indent**, unless there is nothing else. -/
theorem indentWidth_append_white {s : Bytes} (hs : trim s ≠ []) :
    indentWidth (s ++ w) = indentWidth s :=
  indentWidth_append (isContinuation_head?_of_isWhite hw) (trimStart_ne_nil hs)

end AppendWhite

end Bytes

end LiveMarkup

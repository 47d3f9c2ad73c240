import LiveMarkup.Text.Utf8
import Mathlib.Data.List.Basic

/-!
# Encoding and decoding characters

The octets of a character are read back as that character, whatever follows them
(`LiveMarkup.Utf8.uncons?_encode`), and a character is read only where its octets stand
(`LiveMarkup.Utf8.eq_encode_of_uncons?`). So a text is well-formed exactly if it is the encoding of
a list of characters, which is how proofs about well-formed texts proceed: by induction on the list.

An octet below `0x80` is a character of its own and never part of another one. Texts are searched
for such octets without being decoded, and `LiveMarkup.Utf8.mem_encode` is the reason that nothing
is found by mistake.
-/

namespace LiveMarkup

/-- **What holds of the words and of the separator holds of the words with separators between
them**, if it holds of two texts in a row. -/
theorem Bytes.intercalate_induction {P : Bytes → Prop} (nil : P [])
    (append : ∀ {s t}, P s → P t → P (s ++ t)) {sep : Bytes} (hsep : P sep) {ws : List Bytes}
    (h : ∀ w ∈ ws, P w) : P (List.intercalate sep ws) := by
  induction ws with
  | nil => exact nil
  | cons w ws ih =>
    rw [List.forall_mem_cons] at h
    cases ws with
    | nil =>
      rw [List.intercalate_singleton]
      exact h.1
    | cons v ws =>
      rw [List.intercalate_cons_cons]
      exact append (append h.1 hsep) (ih h.2)

namespace Utf8

/-! ### The octets of a character -/

theorem encode_of_lt {c : Char} (h : c.toNat < 0x80) : encode c = [octet c] := by
  have hle : c.val.toNat ≤ 0x7f := Nat.le_of_lt_succ h
  rw [encode, String.utf8EncodeChar]
  exact if_pos hle

/-- **A character beyond ASCII has no ASCII octets.** -/
theorem le_of_mem_encode {c : Char} (h : 0x80 ≤ c.toNat) {b : UInt8} (hb : b ∈ encode c) :
    0x80 ≤ b.toNat := by
  have hnot : ¬c.val.toNat ≤ 0x7f := Nat.not_le_of_lt h
  have hoctet (n k : Nat) (hk : 0x80 ≤ k) (hlt : n + k < 0x100) :
      0x80 ≤ (UInt8.ofNat (n + k)).toNat := by
    rw [UInt8.toNat_ofNat', Nat.mod_eq_of_lt hlt]
    omega
  rw [encode, String.utf8EncodeChar] at hb
  rw [if_neg hnot] at hb
  -- Two, three or four octets, each of them a small number above `0x80` or more.
  split_ifs at hb
  all_goals simp only [List.mem_cons, List.not_mem_nil, or_false] at hb
  · rcases hb with rfl | rfl <;> exact hoctet _ _ (by omega) (by omega)
  · rcases hb with rfl | rfl | rfl <;> exact hoctet _ _ (by omega) (by omega)
  · rcases hb with rfl | rfl | rfl | rfl <;> exact hoctet _ _ (by omega) (by omega)

theorem octet_toNat {c : Char} (h : c.toNat < 0x80) : (octet c).toNat = c.toNat := by
  rw [octet, Nat.toUInt8, UInt8.toNat_ofNat']
  exact Nat.mod_eq_of_lt (by omega)

theorem toNat_ofNat_of_lt {n : Nat} (h : n < 0x80) : (Char.ofNat n).toNat = n := by
  have hvalid : n.isValidChar := Or.inl (by omega)
  rw [Char.ofNat, dif_pos hvalid]
  rfl

/-- The character with the number of an ASCII octet is that octet. -/
theorem encode_ofNat {b : UInt8} (h : b.toNat < 0x80) : encode (Char.ofNat b.toNat) = [b] := by
  have htoNat := toNat_ofNat_of_lt h
  rw [encode_of_lt (by omega), octet, htoNat]
  simp

/-- An ASCII octet among those of a character is the character itself. -/
theorem mem_encode {c : Char} {b : UInt8} (hb : b ∈ encode c) (hlt : b.toNat < 0x80) :
    c.toNat = b.toNat ∧ encode c = [b] := by
  by_cases hc : c.toNat < 0x80
  · rw [encode_of_lt hc] at hb ⊢
    obtain rfl := List.mem_singleton.mp hb
    exact ⟨(octet_toNat hc).symm, rfl⟩
  · exact absurd (le_of_mem_encode (Nat.le_of_not_lt hc) hb) (by omega)

/-- An ASCII character is found only among its own octets. -/
theorem eq_of_octet_mem_encode {c d : Char} (hd : d.toNat < 0x80) (h : octet d ∈ encode c) :
    c = d := by
  have htoNat := octet_toNat hd
  obtain ⟨hc, -⟩ := mem_encode h (by omega)
  exact Char.toNat_inj.mp (hc.trans htoNat)

theorem length_encode (c : Char) : (encode c).length = c.utf8Size := String.length_utf8EncodeChar c

theorem encode_ne_nil (c : Char) : encode c ≠ [] := by
  intro h
  have hlength := length_encode c
  rw [h] at hlength
  exact absurd hlength.symm (Nat.ne_of_gt c.utf8Size_pos)

/-! ### Reading characters -/

/-- **A character is read back** in front of anything. -/
theorem uncons?_encode (c : Char) (s : Bytes) : uncons? (encode c ++ s) = some (some c, s) := by
  by_cases hc : c.toNat < 0x80
  · have hlt : octet c < 0x80 := by
      rw [UInt8.lt_iff_toNat_lt, octet_toNat hc]
      exact hc
    rw [encode_of_lt hc, List.singleton_append, uncons?, if_pos hlt, octet_toNat hc,
      Char.ofNat_toNat]
  · have hhead : head? (encode c ++ s) = some c := by
      -- Four octets are looked at, and no character has more.
      have htake : (encode c ++ s).take 4 = encode c ++ s.take (4 - (encode c).length) := by
        rw [List.take_append, List.take_of_length_le]
        rw [length_encode]
        exact c.utf8Size_le_four
      rw [head?, htake, List.toByteArray_append]
      exact ByteArray.utf8DecodeChar?_utf8EncodeChar_append
    -- The encoding starts with an octet above ASCII, so the reader decodes it.
    have hlength := length_encode c
    have hfirst := fun b => le_of_mem_encode (b := b) (Nat.le_of_not_lt hc)
    revert hhead hlength hfirst
    cases encode c with
    | nil =>
      intro _ hlength _
      exact absurd hlength.symm (Nat.ne_of_gt c.utf8Size_pos)
    | cons b r =>
      intro hhead hlength hfirst
      have hnot : ¬b < 0x80 := by
        rw [UInt8.lt_iff_toNat_lt]
        exact Nat.not_lt.mpr (hfirst b List.mem_cons_self)
      rw [List.cons_append] at hhead
      rw [List.cons_append, uncons?, if_neg hnot, hhead]
      dsimp only
      rw [← hlength, List.length_cons, Nat.add_sub_cancel, List.drop_left]

/-- **What is read as a character is its octets.** -/
theorem eq_encode_of_uncons? {s r : Bytes} {c : Char} (h : uncons? s = some (some c, r)) :
    s = encode c ++ r := by
  cases s with
  | nil => exact absurd h (by simp [uncons?])
  | cons b s =>
    rw [uncons?] at h
    split at h
    · rename_i hb
      obtain ⟨rfl, rfl⟩ : Char.ofNat b.toNat = c ∧ s = r := by simpa using h
      rw [encode_ofNat (UInt8.lt_iff_toNat_lt.mp hb), List.singleton_append]
    · split at h
      · rename_i d hd
        obtain ⟨rfl, rfl⟩ : d = c ∧ s.drop (d.utf8Size - 1) = r := by simpa using h
        -- What was decoded is at the start of the four octets, and as long as the character is.
        obtain ⟨l, hl⟩ := ByteArray.exists_of_utf8DecodeChar?_eq_some hd
        have htake : (b :: s).take 4 = encode d ++ l.data.toList := by
          have hlist := congrArg (fun a : ByteArray => a.data.toList) hl
          simpa [encode] using hlist
        have hall : b :: s = encode d ++ (l.data.toList ++ (b :: s).drop 4) := by
          rw [← List.append_assoc, ← htake, List.take_append_drop]
        have hdrop : s.drop (d.utf8Size - 1) = (b :: s).drop (encode d).length := by
          rw [length_encode]
          obtain ⟨n, hn⟩ := Nat.exists_eq_succ_of_ne_zero (Nat.ne_of_gt d.utf8Size_pos)
          rw [hn, List.drop_succ_cons]
          rfl
        rw [hdrop]
        conv => rhs; rw [hall, List.drop_left]
        exact hall
      · exact absurd h (by simp)

@[simp] theorem chars_nil : chars [] = [] := by
  rw [chars]
  rfl

theorem chars_of_uncons? {s r : Bytes} {c : Option Char} (h : uncons? s = some (c, r)) :
    chars s = c :: chars r := by
  rw [chars.eq_def]
  split
  · rename_i hnone
    rw [hnone] at h
    exact absurd h (by simp)
  · rename_i c' r' hsome
    rw [hsome] at h
    obtain ⟨rfl, rfl⟩ : c' = c ∧ r' = r := by simpa using h
    rfl

@[simp] theorem encodeAll_nil : encodeAll [] = [] := rfl

@[simp] theorem encodeAll_cons (c : Char) (cs : List Char) :
    encodeAll (c :: cs) = encode c ++ encodeAll cs := rfl

/-- **The characters of an encoding** are those that were encoded. -/
theorem chars_encodeAll (cs : List Char) : chars (encodeAll cs) = cs.map some := by
  induction cs with
  | nil => exact chars_nil
  | cons c cs ih =>
    rw [encodeAll_cons, chars_of_uncons? (uncons?_encode c (encodeAll cs)), ih, List.map_cons]

/-- **A text is well-formed if it is the encoding of characters.** -/
theorem isValid_iff {s : Bytes} : isValid s ↔ ∃ cs : List Char, s = encodeAll cs := by
  constructor
  · intro h
    induction s using chars.induct with
    | case1 s hs =>
      refine ⟨[], ?_⟩
      cases s with
      | nil => rfl
      | cons b r =>
        rw [uncons?] at hs
        split at hs
        · exact absurd hs (by simp)
        · split at hs <;> exact absurd hs (by simp)
    | case2 s c? r hs ih =>
      rw [isValid, chars_of_uncons? hs, List.all_cons, Bool.and_eq_true] at h
      obtain ⟨c, rfl⟩ := Option.isSome_iff_exists.mp h.1
      obtain ⟨cs, rfl⟩ := ih h.2
      exact ⟨c :: cs, eq_encode_of_uncons? hs⟩
  · rintro ⟨cs, rfl⟩
    rw [isValid, chars_encodeAll, List.all_map]
    simp

/-- A text of ASCII octets is well-formed, and its octets are its characters. -/
theorem chars_of_ascii {s : Bytes} (h : ∀ b ∈ s, b.toNat < 0x80) :
    chars s = s.map fun b => some (Char.ofNat b.toNat) := by
  induction s with
  | nil => exact chars_nil
  | cons b s ih =>
    rw [List.forall_mem_cons] at h
    have hb : b < 0x80 := UInt8.lt_iff_toNat_lt.mpr h.1
    have huncons : uncons? (b :: s) = some (some (Char.ofNat b.toNat), s) := by
      rw [uncons?, if_pos hb]
    rw [chars_of_uncons? huncons, ih h.2, List.map_cons]

theorem isValid_append {s t : Bytes} (hs : isValid s) (ht : isValid t) : isValid (s ++ t) := by
  obtain ⟨cs, rfl⟩ := isValid_iff.mp hs
  obtain ⟨ds, rfl⟩ := isValid_iff.mp ht
  exact isValid_iff.mpr ⟨cs ++ ds, List.flatMap_append.symm⟩

theorem isValid_of_ascii {s : Bytes} (h : s.all fun b => b.toNat < 0x80) : isValid s := by
  simp only [List.all_eq_true, decide_eq_true_eq] at h
  rw [isValid, chars_of_ascii h, List.all_map]
  simp

end Utf8

end LiveMarkup

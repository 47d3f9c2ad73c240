import LiveMarkup.Proofs.Text.Utf8
import LiveMarkup.Text.Blank

/-!
# Trimming

White space around a text is taken off character by character. A text that is bounded by two octets
of ASCII that are not white space (`LiveMarkup.isSolid`) is not changed by it
(`LiveMarkup.Bytes.trim_of_solid`), whatever white space is inside; spaces in front of such a text
are counted and taken off (`LiveMarkup.Bytes.trim_replicate_append`,
`LiveMarkup.Bytes.indentWidth_replicate_append`).
-/

namespace LiveMarkup

/-- Whether an octet is a character of ASCII that is not white space. -/
def isSolid (b : UInt8) : Bool := b.toNat < 0x80 && !isBlank (Char.ofNat b.toNat)

namespace Bytes

theorem trimStart_encode (c : Char) (s : Bytes) :
    trimStart (Utf8.encode c ++ s) = if isBlank c then trimStart s else Utf8.encode c ++ s := by
  rw [trimStart.eq_def]
  split
  · rename_i hnone
    rw [Utf8.uncons?_encode] at hnone
    exact absurd hnone (by simp)
  · rename_i c' r hsome
    rw [Utf8.uncons?_encode] at hsome
    obtain ⟨rfl, rfl⟩ : some c = c' ∧ s = r := by simpa using hsome
    rfl

theorem trimEnd_nil : trimEnd [] = [] := by
  rw [trimEnd]
  rfl

theorem trimEnd_encode (c : Char) (s : Bytes) :
    trimEnd (Utf8.encode c ++ s) =
      if (trimEnd s).isEmpty && isBlank c then [] else Utf8.encode c ++ trimEnd s := by
  rw [trimEnd.eq_def]
  split
  · rename_i hnone
    rw [Utf8.uncons?_encode] at hnone
    exact absurd hnone (by simp)
  · rename_i c' r hsome
    rw [Utf8.uncons?_encode] at hsome
    obtain ⟨rfl, rfl⟩ : some c = c' ∧ s = r := by simpa using hsome
    have htake : (Utf8.encode c ++ s).take ((Utf8.encode c ++ s).length - s.length) =
        Utf8.encode c := by
      rw [List.length_append, Nat.add_sub_cancel, List.take_left]
    rw [htake]
    rfl

theorem indentWidth_encode (c : Char) (s : Bytes) :
    indentWidth (Utf8.encode c ++ s) = if isBlank c then indentWidth s + 1 else 0 := by
  rw [indentWidth.eq_def]
  split
  · rename_i hnone
    rw [Utf8.uncons?_encode] at hnone
    exact absurd hnone (by simp)
  · rename_i c' r hsome
    rw [Utf8.uncons?_encode] at hsome
    obtain ⟨rfl, rfl⟩ : some c = c' ∧ s = r := by simpa using hsome
    rfl

/-- **The end of a text stays** if its last character is not white space. -/
theorem trimEnd_encodeAll {cs : List Char} {c : Char} (hlast : cs.getLast? = some c)
    (hc : isBlank c = false) : trimEnd (Utf8.encodeAll cs) = Utf8.encodeAll cs := by
  induction cs with
  | nil => exact trimEnd_nil
  | cons d cs ih =>
    rw [Utf8.encodeAll_cons, trimEnd_encode]
    cases cs with
    | nil =>
      obtain rfl : d = c := by simpa using hlast
      rw [hc, Bool.and_false, if_neg (by simp), Utf8.encodeAll_nil, trimEnd_nil]
    | cons d' cs =>
      rw [List.getLast?_cons_cons] at hlast
      have hne : Utf8.encodeAll (d' :: cs) ≠ [] := by
        rw [Utf8.encodeAll_cons]
        exact fun h => Utf8.encode_ne_nil d' (List.append_eq_nil_iff.mp h).1
      rw [ih hlast, List.isEmpty_eq_false_iff.mpr hne, Bool.false_and, if_neg (by simp)]

section Solid

variable {s : Bytes} {b e : UInt8}

theorem encode_of_isSolid (h : isSolid b) : Utf8.encode (Char.ofNat b.toNat) = [b] := by
  rw [isSolid, Bool.and_eq_true, decide_eq_true_eq] at h
  exact Utf8.encode_ofNat h.1

theorem isBlank_of_isSolid (h : isSolid b) : isBlank (Char.ofNat b.toNat) = false := by
  rw [isSolid, Bool.and_eq_true] at h
  simpa using h.2

/-- White space in front of a text that starts with a solid octet is not there. -/
theorem trimStart_of_solid (hb : isSolid b) (s : Bytes) : trimStart (b :: s) = b :: s := by
  have htrim := trimStart_encode (Char.ofNat b.toNat) s
  rwa [encode_of_isSolid hb, isBlank_of_isSolid hb, if_neg (by simp)] at htrim

theorem trimEnd_of_solid (hvalid : Utf8.isValid s) (hlast : s.getLast? = some e) (he : isSolid e) :
    trimEnd s = s := by
  obtain ⟨cs, rfl⟩ := Utf8.isValid_iff.mp hvalid
  -- The last octet belongs to the last character, and is that character.
  rcases List.eq_nil_or_concat' cs with rfl | ⟨cs, c, rfl⟩
  · exact absurd hlast (by simp)
  · have hmem : e ∈ Utf8.encode c := by
      have hencode : Utf8.encodeAll (cs ++ [c]) = Utf8.encodeAll cs ++ Utf8.encode c := by
        simp [Utf8.encodeAll]
      rw [hencode, List.getLast?_append_of_ne_nil _ (Utf8.encode_ne_nil c)] at hlast
      exact List.mem_of_getLast? hlast
    have hsolid := he
    rw [isSolid, Bool.and_eq_true, decide_eq_true_eq] at hsolid
    obtain ⟨hc, -⟩ := Utf8.mem_encode hmem hsolid.1
    refine trimEnd_encodeAll (c := c) (by simp) ?_
    rw [← Char.ofNat_toNat c, hc]
    exact isBlank_of_isSolid he

/-- **A text between two solid octets is not trimmed.** -/
theorem trim_of_solid (hvalid : Utf8.isValid s) (hfirst : s.head? = some b) (hb : isSolid b)
    (hlast : s.getLast? = some e) (he : isSolid e) : trim s = s := by
  obtain ⟨r, rfl⟩ := List.head?_eq_some_iff.mp hfirst
  rw [trim, trimStart_of_solid hb]
  exact trimEnd_of_solid hvalid hlast he

theorem trimStart_replicate_append (n : Nat) (s : Bytes) :
    trimStart (List.replicate n (octet ' ') ++ s) = trimStart s := by
  induction n with
  | zero => rfl
  | succ n ih =>
    have htrim := trimStart_encode ' ' (List.replicate n (octet ' ') ++ s)
    rw [if_pos (by decide), ih] at htrim
    exact htrim

/-- **Spaces in front of a text are taken off.** -/
theorem trim_replicate_append (n : Nat) (s : Bytes) :
    trim (List.replicate n (octet ' ') ++ s) = trim s := by
  rw [trim, trimStart_replicate_append, trim]

/-- **The spaces in front of a text are its indent.** -/
theorem indentWidth_replicate_append (n : Nat) (hb : isSolid b) (s : Bytes) :
    indentWidth (List.replicate n (octet ' ') ++ b :: s) = n := by
  induction n with
  | zero =>
    have hwidth := indentWidth_encode (Char.ofNat b.toNat) s
    rwa [encode_of_isSolid hb, isBlank_of_isSolid hb, if_neg (by simp)] at hwidth
  | succ n ih =>
    have hwidth := indentWidth_encode ' ' (List.replicate n (octet ' ') ++ b :: s)
    rw [if_pos (by decide), ih] at hwidth
    exact hwidth

end Solid

end Bytes

end LiveMarkup

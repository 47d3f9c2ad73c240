import LiveMarkup.Proofs.Text.Utf8
import LiveMarkup.Text.ScriptString

/-!
# How characters are written in literals

A character of a string literal is written in one of three ways: with a letter after a backslash, in
hexadecimal, or as it is. What is to be shown of all characters is shown of the three ways
(`LiveMarkup.ScriptString.char_cases`); it is how literals are proved to be read back and to break
no line of a script.
-/

namespace LiveMarkup

namespace ScriptString

/-- The characters that are written as a backslash and a letter or mark, each with this letter or
mark. -/
def escapes : List (Char × Char) :=
  [('"', '"'), ('\\', '\\'), ('\n', 'n'), ('\r', 'r'), ('\t', 't'), (Char.ofNat 0x08, 'b'),
    (Char.ofNat 0x0c, 'f')]

/-- Whether a character is written in hexadecimal, unless a letter stands for it. -/
def isCoded (c : Char) : Bool :=
  c.toNat < 0x20 ∨ c = '<' ∨ c = '>' ∨ c = '&' ∨ c.toNat = 0x2028 ∨ c.toNat = 0x2029

theorem toNat_lt_of_isCoded {c : Char} (h : isCoded c) : c.toNat < 0xd800 := by
  rcases of_decide_eq_true h with h | rfl | rfl | rfl | h | h
  · omega
  · decide
  · decide
  · decide
  · omega
  · omega

/-- **The ways in which characters are written**: with a letter, in hexadecimal, and as they are. -/
theorem char_cases {P : Bytes → Char → Prop} (c : Char)
    (hescape : ∀ y ∈ escapes, P [octet '\\', octet y.2] y.1)
    (hcoded : c ∉ escapes.map Prod.fst → isCoded c → P (coded c) c)
    (hplain : c ∉ escapes.map Prod.fst → ¬isCoded c → P (Utf8.encode c) c) : P (char c) c := by
  by_cases hc : c ∈ escapes.map Prod.fst
  · obtain ⟨y, hy, rfl⟩ := List.mem_map.mp hc
    have hchar : ∀ y ∈ escapes, char y.1 = [octet '\\', octet y.2] := by decide
    rw [hchar y hy]
    exact hescape y hy
  · have hne {d : Char} (hd : d ∈ escapes.map Prod.fst) : c ≠ d := fun h => hc (h ▸ hd)
    have htoNat {n : Nat} (hn : Char.ofNat n ∈ escapes.map Prod.fst) : c.toNat ≠ n := fun h =>
      hne hn (by rw [← h, Char.ofNat_toNat])
    rw [char, if_neg (not_or.mpr ⟨hne (by decide), hne (by decide)⟩), if_neg (hne (by decide)),
      if_neg (hne (by decide)), if_neg (hne (by decide)), if_neg (htoNat (by decide)),
      if_neg (htoNat (by decide))]
    split_ifs with h
    · exact hcoded hc (decide_eq_true h)
    · exact hplain hc fun hcode => h (of_decide_eq_true hcode)

/-! ### Whole literals -/

/-- What is written for a stray octet is one of the ways in which the replacement character is
written. -/
theorem stray_cases {P : Bytes → Prop} (form : StrayForm) (hchar : P (char Utf8.replacement))
    (hcoded : P (coded Utf8.replacement)) : P (stray form) := by
  cases form with
  | plain => exact hchar
  | coded => exact hcoded

end ScriptString

/-- The library writes the characters of the repaired text. -/
theorem scriptString_eq (s : Bytes) :
    scriptString s = octet '"' :: ((Utf8.lossy s).flatMap ScriptString.char ++ [octet '"']) := by
  have hchar (c : Option Char) :
      ScriptString.char? .plain c = ScriptString.char (c.getD Utf8.replacement) := by
    cases c <;> rfl
  rw [scriptString, Utf8.lossy, List.flatMap_map]
  exact congrArg (fun f => octet '"' :: ((Utf8.chars s).flatMap f ++ [octet '"'])) (funext hchar)

namespace ScriptString

/-! ### The length of a character -/

/-- How many octets a character takes in a literal: two if a letter stands for it, six if it is
written in hexadecimal, and its own otherwise. -/
def width (c : Char) : Nat :=
  if c ∈ escapes.map Prod.fst then 2 else if isCoded c then 6 else c.utf8Size

theorem length_char (c : Char) : (char c).length = width c := by
  refine char_cases (P := fun s d => s.length = width d) c (by decide) (fun hc hcode => ?_)
    fun hc hcode => ?_
  · rw [width, if_neg hc, if_pos hcode]
    rfl
  · rw [width, if_neg hc, if_neg hcode, Utf8.length_encode]

theorem utf8Size_le_width (c : Char) : c.utf8Size ≤ width c := by
  rw [width]
  split_ifs with hescape
  · obtain ⟨y, hy, rfl⟩ := List.mem_map.mp hescape
    have hsize : ∀ y ∈ escapes, y.1.utf8Size ≤ 2 := by decide
    exact hsize y hy
  · exact Nat.le_trans c.utf8Size_le_four (by omega)
  · exact Nat.le_refl _

/-- No character becomes more than six times as long. -/
theorem width_le (c : Char) : width c ≤ 6 * c.utf8Size := by
  have hpos := c.utf8Size_pos
  rw [width]
  split_ifs <;> omega

end ScriptString

end LiveMarkup

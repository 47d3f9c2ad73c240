import LiveMarkup.Playground.Page
import LiveMarkup.Text.Escape
import Mathlib.Data.List.Basic

/-!
# Character references

In the texts and values of HTML an ampersand can begin a reference, which stands for a character: it
has the name of the character, or its number. `LiveMarkup.Html.Names.decode` replaces the
references by what they stand for. Of the names of a reference the longest counts, so that what is
written behind one matters, and a reference may lack its semicolon.

There are more than two thousand names. Nothing here depends on which ones there are, but for the
three that are written when a text is escaped, and for that a semicolon ends a name: this is what
`LiveMarkup.Html.Names` has. The main statement is that the references of a text that was escaped
give the text back (`LiveMarkup.Html.Names.decode_escape`).
-/

namespace LiveMarkup

namespace Html

/-- The names of characters and what they stand for. The semicolon is part of a name, and there are
names with and without it. -/
structure Names where
  find? : Bytes → Option Bytes
  /-- A semicolon can only be the last octet of a name. -/
  find?_of_inner : ∀ front back, back ≠ [] → find? (front ++ octet ';' :: back) = none
  find?_amp : find? (utf8 "amp" ++ [octet ';']) = some (utf8 "&")
  find?_lt : find? (utf8 "lt" ++ [octet ';']) = some (utf8 "<")
  find?_gt : find? (utf8 "gt" ++ [octet ';']) = some (utf8 ">")

/-! ### References by number -/

/-- What the numbers from 128 to 159 stand for. -/
def latinPoints : List Nat :=
  [0x20ac, 0x81, 0x201a, 0x192, 0x201e, 0x2026, 0x2020, 0x2021, 0x2c6, 0x2030, 0x160, 0x2039,
    0x152, 0x8d, 0x17d, 0x8f, 0x90, 0x2018, 0x2019, 0x201c, 0x201d, 0x2022, 0x2013, 0x2014, 0x2dc,
    0x2122, 0x161, 0x203a, 0x153, 0x9d, 0x17e, 0x178]

/-- The character that a number stands for. -/
def character (n : Nat) : Char :=
  if n = 0 ∨ ¬Escape.isScalar n then Utf8.replacement
  else Char.ofNat (if 0x80 ≤ n ∧ n < 0xa0 then latinPoints.getD (n - 0x80) n else n)

/-- The number with given digits. -/
def numeral (base : Nat) (digits : Bytes) : Nat :=
  digits.foldl (fun v b => v * base + (hexValue? b).getD 0) 0

/-- The number that a text begins with, which is hexadecimal after an `x`: the character it stands
for and how many octets it has, with the semicolon if there is one. -/
def numbered? (s : Bytes) : Option (Bytes × Nat) :=
  let isHex := s.head?.any fun b => b = octet 'x' ∨ b = octet 'X'
  let mark := if isHex then 1 else 0
  let digits := (s.drop mark).takeWhile fun b =>
    if isHex then (hexValue? b).isSome else isDigitOctet b
  let stop := if (s.drop (mark + digits.length)).head? = some (octet ';') then 1 else 0
  if digits = [] then none
  else some (Utf8.encode (character (numeral (if isHex then 16 else 10) digits)),
    mark + digits.length + stop)

namespace Names

variable (t : Names) (inValue : Bool)

/-! ### References by name -/

/-- The longest name, of `n` octets at most, that a text begins with: what it stands for, and how
many octets it has. -/
def longest? (s : Bytes) : (n : Nat) → Option (Bytes × Nat)
  | 0 => none
  | n + 1 =>
    match t.find? (s.take (n + 1)) with
    | some c => some (c, n + 1)
    | none => longest? s n

/-- The name that a text begins with. In a value, a name without its semicolon does not count if it
could go on. -/
def named? (s : Bytes) : Option (Bytes × Nat) :=
  (t.longest? s s.length).filter fun m =>
    !inValue || (s.take m.2).getLast? == some (octet ';') ||
      !(s.drop m.2).head?.any fun b => isAlphaOctet b || isDigitOctet b || b == octet '='

/-- The reference that goes on behind an ampersand. -/
def reference? : Bytes → Option (Bytes × Nat)
  | [] => none
  | b :: s =>
    if b = octet '#' then (numbered? s).map fun m => (m.1, m.2 + 1) else t.named? inValue (b :: s)

/-! ### Texts with references -/

/-- What a text with references stands for. The first `skip` octets are part of a reference that was
read. -/
def decodeFrom : (skip : Nat) → Bytes → Bytes
  | _, [] => []
  | skip + 1, _ :: s => decodeFrom skip s
  | 0, b :: s =>
    if b = octet '&' then
      match t.reference? inValue s with
      | some (c, n) => c ++ decodeFrom n s
      | none => b :: decodeFrom 0 s
    else b :: decodeFrom 0 s

/-- What a text with references stands for. -/
def decode (s : Bytes) : Bytes := t.decodeFrom inValue 0 s

variable {t inValue}

theorem decodeFrom_append (front s : Bytes) :
    t.decodeFrom inValue front.length (front ++ s) = t.decode inValue s := by
  induction front with
  | nil => rfl
  | cons b front ih => exact ih

theorem decode_cons_of_ne {b : UInt8} (h : b ≠ octet '&') (s : Bytes) :
    t.decode inValue (b :: s) = b :: t.decode inValue s := by
  rw [decode, decodeFrom, if_neg h]
  rfl

theorem decode_reference {r c s : Bytes}
    (h : t.reference? inValue (r ++ s) = some (c, r.length)) :
    t.decode inValue (octet '&' :: (r ++ s)) = c ++ t.decode inValue s := by
  rw [decode, decodeFrom, if_pos rfl, h]
  dsimp only
  rw [decodeFrom_append]

/-- **A name with its semicolon is the longest one**, whatever follows it. -/
theorem longest?_of_find? {name c : Bytes} (h : t.find? (name ++ [octet ';']) = some c) (s : Bytes)
    {n : Nat} (hle : name.length + 1 ≤ n) (hn : n ≤ name.length + 1 + s.length) :
    t.longest? (name ++ octet ';' :: s) n = some (c, name.length + 1) := by
  induction n with
  | zero => omega
  | succ n ih =>
    rcases Nat.lt_or_ge name.length n with hlt | hge
    · -- A longer name would have the semicolon inside.
      have htake : (name ++ octet ';' :: s).take (n + 1) =
          name ++ octet ';' :: s.take (n - name.length) := by
        rw [List.take_append, List.take_of_length_le (by omega),
          show n + 1 - name.length = (n - name.length) + 1 by omega, List.take_succ_cons]
      have hrest : s.take (n - name.length) ≠ [] := by
        rw [Ne, List.take_eq_nil_iff, not_or, ← List.length_eq_zero_iff]
        omega
      rw [longest?, htake, t.find?_of_inner _ _ hrest]
      exact ih (by omega) (by omega)
    · obtain rfl : n = name.length := by omega
      have htake : (name ++ octet ';' :: s).take (name.length + 1) = name ++ [octet ';'] := by
        rw [List.take_append, List.take_of_length_le (by omega), Nat.add_sub_cancel_left]
        rfl
      rw [longest?, htake, h]

theorem named?_of_find? {name c : Bytes} (h : t.find? (name ++ [octet ';']) = some c) (s : Bytes) :
    t.named? inValue (name ++ [octet ';'] ++ s) = some (c, name.length + 1) := by
  have hlength : (name ++ [octet ';']).length = name.length + 1 := by simp
  have htake : (name ++ [octet ';'] ++ s).take (name.length + 1) = name ++ [octet ';'] := by
    rw [← hlength, List.take_left]
  rw [named?, List.append_assoc, List.singleton_append,
    longest?_of_find? h s (by simp) (by simp; omega), ← List.singleton_append,
    ← List.append_assoc, Option.filter_some, htake, List.getLast?_concat]
  simp

/-- **An escaped octet is read as the octet.** -/
theorem decode_escapeOctet {b : UInt8} (hb : b ≠ 0) (s : Bytes) :
    t.decode inValue (Playground.escapeOctet b ++ s) = b :: t.decode inValue s := by
  have hnamed {b' : UInt8} {name c : Bytes} (hb' : b' ≠ octet '#')
      (h : t.find? (b' :: name ++ [octet ';']) = some c) :
      t.decode inValue (octet '&' :: (b' :: name ++ [octet ';'] ++ s)) =
        c ++ t.decode inValue s := by
    refine decode_reference ?_
    rw [List.cons_append, List.cons_append, reference?, if_neg hb', ← List.cons_append,
      ← List.cons_append, named?_of_find? h]
    simp
  rw [Playground.escapeOctet, if_neg hb]
  -- The quotes are written by their numbers and the other marks by their names.
  split_ifs with hquote hsingle hamp hlt hgt
  · subst hquote
    exact decode_reference (r := utf8 "#34;") rfl
  · subst hsingle
    exact decode_reference (r := utf8 "#39;") rfl
  · subst hamp
    exact hnamed (by decide) t.find?_amp
  · subst hlt
    exact hnamed (by decide) t.find?_lt
  · subst hgt
    exact hnamed (by decide) t.find?_gt
  · exact decode_cons_of_ne hamp s

/-- **An escaped text is read as the text.** -/
theorem decode_escape {s : Bytes} (h : 0 ∉ s) : t.decode inValue (Playground.escape s) = s := by
  induction s with
  | nil => rfl
  | cons b s ih =>
    rw [List.mem_cons, not_or] at h
    rw [Playground.escape, List.flatMap_cons, decode_escapeOctet (Ne.symm h.1)]
    exact congrArg (b :: ·) (ih h.2)

/-- The names of the characters that have a meaning in HTML, with and without the semicolon. -/
def marks : List (Bytes × Bytes) :=
  [(utf8 "amp", utf8 "&"), (utf8 "lt", utf8 "<"), (utf8 "gt", utf8 ">"), (utf8 "quot", utf8 "\"")]

/-- The fewest names there can be, and the one for quotes. -/
def basic : Names where
  find? name := marks.lookup (if name.getLast? = some (octet ';') then name.dropLast else name)
  find?_of_inner front back hback := by
    have hkeys : ∀ e ∈ marks, octet ';' ∉ e.1 := by decide
    have hmem : octet ';' ∈ front ++ octet ';' :: back := by simp
    have hmem' : octet ';' ∈ (front ++ octet ';' :: back).dropLast := by
      rw [List.dropLast_append_of_ne_nil (by simp), List.dropLast_cons_of_ne_nil hback]
      simp
    rw [List.lookup_eq_none_iff]
    rintro e he
    rw [bne_iff_ne]
    rintro heq
    refine hkeys e he ?_
    rw [← heq]
    split_ifs
    · exact hmem'
    · exact hmem
  find?_amp := by decide
  find?_lt := by decide
  find?_gt := by decide

/-- In a value the name goes on, and in a text it does not. -/
example : basic.decode true (utf8 "&lt=&ltx;") = utf8 "&lt=&ltx;" ∧
    basic.decode false (utf8 "&lt=&ltx;") = utf8 "<=<x;" := by decide

end Names

end Html

end LiveMarkup

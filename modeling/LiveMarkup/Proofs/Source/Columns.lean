import LiveMarkup.Proofs.Source.Parts
import LiveMarkup.Proofs.Source.Window
import Mathlib.Data.Int.Order.Basic

/-!
# Lines and columns

A significant line leads back to its source: the text between two line feeds that has its number
(`LiveMarkup.Line.exists_raw_of_mem_ofSource`). A column counts the characters of that text, white
space and stray octets included, so a report can point at two places of a line:

* at its first character that is no white space (`LiveMarkup.Line.isFirst_indent`), and
* at the parenthesis that opens its attribute list, which stands behind as many characters as the
  head of the line has octets (`LiveMarkup.Line.opensList_indent`).

What is shown of the source around such a place is the line itself, and a caret under the character
(`LiveMarkup.SourceContext.around?_line`, `LiveMarkup.SourceContext.text_line`). Lines and columns
are words, which is no restriction for a source that has fewer octets than the largest of them.
-/

namespace LiveMarkup

theorem Utf8.length_chars_le (s : Bytes) : (chars s).length ≤ s.length := by
  induction s using chars.induct with
  | case1 s hs =>
    obtain rfl := eq_nil_of_uncons? hs
    simp
  | case2 s c r hs ih =>
    have hshorter := length_of_uncons? hs
    rw [chars_of_uncons? hs, List.length_cons]
    omega

/-- Each piece has the separators of the pieces in front of it in front. -/
theorem Bytes.add_length_le_of_splitOn {sep : UInt8} {s w : Bytes} {i : Nat}
    (h : (s.splitOn sep)[i]? = some w) : i + w.length ≤ s.length := by
  induction s generalizing i w with
  | nil =>
    cases i with
    | zero =>
      obtain rfl : [] = w := by simpa using h
      exact Nat.le_refl 0
    | succ i => exact absurd h (by simp)
  | cons b s ih =>
    rw [List.splitOn_cons_eq_if_modifyHead] at h
    rw [List.length_cons]
    split at h
    · cases i with
      | zero =>
        obtain rfl : [] = w := by simpa using h
        simp
      | succ i =>
        have hrest := ih (w := w) (i := i) (by simpa using h)
        omega
    · cases hs : s.splitOn sep with
      | nil => exact absurd hs (List.splitOn_ne_nil sep s)
      | cons v vs =>
        rw [hs, List.modifyHead_cons] at h
        rw [hs] at ih
        cases i with
        | zero =>
          obtain rfl : b :: v = w := by simpa using h
          have hrest := ih (w := v) (i := 0) rfl
          rw [List.length_cons]
          omega
        | succ i =>
          have hrest := ih (w := w) (i := i + 1) (by simpa using h)
          omega

namespace Line

/-! ### From a line to its source -/

theorem exists_raw_of_mem_ofRaws {number : Nat} {raws : List Bytes} {l : Line}
    (h : l ∈ ofRaws number raws) :
    ∃ i raw, raws[i]? = some raw ∧ ofRaw? (number + i) raw = some l := by
  induction raws generalizing number with
  | nil => exact absurd h (by simp [ofRaws])
  | cons raw raws ih =>
    have hrest (h : l ∈ ofRaws (number + 1) raws) :
        ∃ i raw', (raw :: raws)[i]? = some raw' ∧ ofRaw? (number + i) raw' = some l := by
      obtain ⟨i, raw', hraw, hl⟩ := ih h
      refine ⟨i + 1, raw', by rwa [List.getElem?_cons_succ], ?_⟩
      rwa [← Nat.add_assoc, Nat.add_right_comm]
    rw [ofRaws] at h
    split at h
    · rename_i l' hl'
      rcases List.mem_cons.mp h with rfl | h
      · exact ⟨0, raw, rfl, hl'⟩
      · exact hrest h
    · exact hrest h

/-- **A significant line is the line of the source with its number.** -/
theorem exists_raw_of_mem_ofSource {src : Bytes} {l : Line} (h : l ∈ ofSource src) :
    ∃ i raw, (src.splitOn (octet '\n'))[i]? = some raw ∧ ofRaw? (i + 1) raw = some l := by
  obtain ⟨i, raw, hraw, hl⟩ := exists_raw_of_mem_ofRaws h
  exact ⟨i, raw, hraw, by rwa [Nat.add_comm i 1]⟩

section Raw

variable {number : Nat} {raw : Bytes} {l : Line} (h : ofRaw? number raw = some l)

include h

theorem text_of_ofRaw? : l.text = raw.dropReturn.trim ∧ l.indent = raw.dropReturn.indentWidth ∧
    isSignificant l.text := by
  rw [ofRaw?] at h
  split at h
  · rename_i hsignificant
    obtain rfl := Option.some.inj h
    exact ⟨rfl, rfl, hsignificant⟩
  · exact absurd h (by simp)

/-- The text of a line is a part of it. -/
theorem isPart_of_ofRaw? : Bytes.IsPart l.text raw := by
  rw [(text_of_ofRaw? h).1]
  exact (Bytes.isPart_trim _).trans (Bytes.isPart_dropReturn raw)

/-- **The characters of a line** are the white space of its indent, those of its text, and white
space. -/
theorem chars_of_ofRaw? : ∃ before after,
    Utf8.chars raw = before ++ Utf8.chars l.text ++ after ∧ before.length = l.indent ∧
    ∀ c ∈ before, Bytes.isBlank? c := by
  obtain ⟨htext, hindent, -⟩ := text_of_ofRaw? h
  obtain ⟨before, after, hchars, hlength, hblank, -⟩ := Bytes.chars_trim raw.dropReturn
  have hreturn : ∃ ending, Utf8.chars raw = Utf8.chars raw.dropReturn ++ ending := by
    rw [Bytes.dropReturn]
    split
    · rename_i hlast
      obtain ⟨t, rfl⟩ := List.getLast?_eq_some_iff.mp hlast
      rw [List.dropLast_concat]
      exact ⟨_, Utf8.isCut_cons t (by decide) []⟩
    · exact ⟨[], (List.append_nil _).symm⟩
  obtain ⟨ending, hending⟩ := hreturn
  refine ⟨before, after ++ ending, ?_, by rw [hlength, hindent], hblank⟩
  rw [hending, hchars, htext, List.append_assoc]

/-- The text of a line starts with a character that is no white space. -/
theorem exists_chars_text : ∃ c cs, Utf8.chars l.text = c :: cs ∧ Bytes.isBlank? c = false := by
  obtain ⟨htext, -, hsignificant⟩ := text_of_ofRaw? h
  have hhead := Bytes.head?_chars_trim raw.dropReturn
  rw [← htext] at hhead
  cases hchars : Utf8.chars l.text with
  | nil =>
    have hnil : l.text = [] := by
      cases huncons : Utf8.uncons? l.text with
      | none => exact Utf8.eq_nil_of_uncons? huncons
      | some y =>
        rw [Utf8.chars_of_uncons? (c := y.1) (r := y.2) huncons] at hchars
        exact absurd hchars (by simp)
    rw [hnil] at hsignificant
    exact absurd hsignificant (by decide)
  | cons c cs =>
    rw [hchars] at hhead
    exact ⟨c, cs, rfl, by simpa using hhead⟩

end Raw

/-! ### The places of a line -/

/-- **The first character of a line**: it is no white space, and everything in front of it is. -/
def IsFirst (raw : Bytes) (k : Nat) : Prop :=
  (∃ c, (Utf8.chars raw)[k]? = some c ∧ Bytes.isBlank? c = false) ∧
  ∀ c ∈ (Utf8.chars raw).take k, Bytes.isBlank? c

/-- **The start of the attribute list of a line**: the parenthesis behind the head of a tag line.
-/
def OpensList (l : Line) (raw : Bytes) (k : Nat) : Prop :=
  (Utf8.chars raw)[k]? = some (some '(') ∧
  ∃ t list r, TagLine.parse? l.text = some t ∧ t.attributes = some list ∧
    l.text = t.head ++ octet '(' :: (list.text ++ r) ∧ k = l.indent + t.head.length

section Places

variable {number : Nat} {raw : Bytes} {l : Line} (h : ofRaw? number raw = some l)

include h

theorem isFirst_indent : IsFirst raw l.indent := by
  obtain ⟨before, after, hchars, hlength, hblank⟩ := chars_of_ofRaw? h
  obtain ⟨c, cs, htext, hc⟩ := exists_chars_text h
  rw [IsFirst, hchars, htext, List.append_assoc, List.cons_append, ← hlength]
  refine ⟨⟨c, ?_, hc⟩, ?_⟩
  · rw [List.getElem?_append_right (Nat.le_refl _), Nat.sub_self, List.getElem?_cons_zero]
  · rwa [List.take_left]

/-- All octets of the head are characters, so the parenthesis is found by counting them. -/
theorem opensList_indent {t : TagLine} {list : AttributeList} (ht : TagLine.parse? l.text = some t)
    (hlist : t.attributes = some list) : OpensList l raw (l.indent + t.head.length) := by
  obtain ⟨before, after, hchars, hlength, -⟩ := chars_of_ofRaw? h
  obtain ⟨s, htext, htake⟩ := TagLine.eq_head_append_of_parse? ht
  have hopen : ∃ r, s = octet '(' :: (list.text ++ r) := by
    have htaken : AttributeList.take s = (some list, (AttributeList.take s).2) := by
      rw [← hlist, htake]
    rcases AttributeList.eq_of_take htaken with hs | ⟨hs, -⟩
    · exact ⟨_, hs⟩
    · exact ⟨[], by rw [List.append_nil, hs]⟩
  obtain ⟨r, rfl⟩ := hopen
  refine ⟨?_, t, list, r, ht, hlist, htext, rfl⟩
  have hascii := TagLine.toNat_lt_of_mem_head ht
  have hhead : (Utf8.chars t.head).length = t.head.length := by
    rw [Utf8.chars_of_ascii hascii, List.length_map]
  have hrest : Utf8.chars l.text =
      Utf8.chars t.head ++ some '(' :: Utf8.chars (list.text ++ r) := by
    rw [htext, Utf8.isCut_cons t.head (by decide), Utf8.chars_cons_of_lt (by decide)]
    rfl
  have hsplit : Utf8.chars raw = (before ++ Utf8.chars t.head) ++
      some '(' :: (Utf8.chars (list.text ++ r) ++ after) := by
    rw [hchars, hrest]
    simp only [List.append_assoc, List.cons_append]
  have hcount : l.indent + t.head.length = (before ++ Utf8.chars t.head).length := by
    rw [List.length_append, hlength, hhead]
  rw [hsplit, hcount, List.getElem?_append_right (Nat.le_refl _), Nat.sub_self,
    List.getElem?_cons_zero]

end Places

end Line

/-! ### What is shown of a line -/

namespace SourceContext

/-- **The context of a line is the line itself.** -/
theorem around?_line {src raw : Bytes} (hsrc : src.length < 0x8000000000000000) {i : Nat}
    (hraw : (src.splitOn (octet '\n'))[i]? = some raw) (hne : raw ≠ []) (column : Int) :
    around? src ⟨(i + 1 : Nat), column⟩ 0 =
      some ⟨[((i + 1 : Nat), raw.dropReturn)], ⟨(i + 1 : Nat), column⟩⟩ := by
  have hlength := Bytes.add_length_le_of_splitOn hraw
  have hpos := List.length_pos_iff.mpr hne
  have hwrap : wrap64 (((i + 1 : Nat) : Int) + 0) = (i + 1 : Nat) := by
    rw [Int.add_zero]
    exact wrap64_of_lt (by omega)
  obtain ⟨hi, -⟩ := List.getElem?_eq_some_iff.mp hraw
  have hfirst : max (((i + 1 : Nat) : Int) - 0) 1 = (i + 1 : Nat) := by omega
  have hlast : lastShown ((i + 1 : Nat) : Int) 0 (src.splitOn (octet '\n')).length =
      (i + 1 : Nat) := by
    rw [lastShown, hwrap]
    omega
  have hline : (numbered src)[i]? = some (((i + 1 : Nat) : Int), raw.dropReturn) := by
    rw [getElem?_numbered, hraw]
    rfl
  obtain ⟨hbound, hline⟩ := List.getElem?_eq_some_iff.mp hline
  have hskip : (((i + 1 : Nat) : Int) - 1).toNat = i := by omega
  have hone : (((i + 1 : Nat) : Int) - (i + 1 : Nat) + 1).toNat = 1 := by omega
  rw [around?_eq, if_neg (by dsimp only; omega), max_self]
  dsimp only
  rw [hfirst, hlast, filter_numbered src (by omega), hskip, hone,
    List.drop_eq_getElem_cons hbound, List.take_succ_cons, List.take_zero, hline]

/-- **A line is shown with its number, and a caret stands below it.** -/
theorem text_line (number k : Nat) (body : Bytes) :
    text ⟨[((number : Int), body)], ⟨number, k + 1⟩⟩ = Bytes.unlines
      [decimalNat number ++ utf8 " | " ++ body,
        List.replicate (decimalNat number).length (octet ' ') ++ utf8 " | " ++
          List.replicate k (octet ' ') ++ utf8 "^"] := by
  have hcolumn : (0 : Int) < k + 1 := by omega
  have hblanks : ((k + 1 : Int) - 1).toNat = k := by omega
  rw [text_eq_unlines List.getLast?_singleton, List.flatMap_singleton, rowsOf, if_pos rfl,
    caretRows, if_pos hcolumn, numberedRow, caretRow, padded, padded, hblanks, Nat.sub_self,
    List.append_nil]
  rfl

end SourceContext

end LiveMarkup

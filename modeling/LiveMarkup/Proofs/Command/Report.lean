import LiveMarkup.Command.Build
import LiveMarkup.Proofs.Source.Columns
import LiveMarkup.Proofs.Tree.Reports

/-!
# The report of a build

The report lists the diagnostics of a source, each with the line that it is about and a caret below
the character where it was found. `LiveMarkup.Build.Shown` says what that means: the diagnostic
points at a character of a significant line, and its part of the report is a header, the numbered
line, and the caret in the column of the character.

`LiveMarkup.Build.diagnostics_shown_in_place` is the main result: all diagnostics are shown in this
way, and the report consists of nothing else.
-/

namespace LiveMarkup

/-- A carriage return at the end is white space, so what is not stays where it is without it. -/
theorem Bytes.getElem?_chars_dropReturn {s : Bytes} {k : Nat} {c : Option Char}
    (h : (Utf8.chars s)[k]? = some c) (hc : isBlank? c = false) :
    (Utf8.chars s.dropReturn)[k]? = some c := by
  rw [dropReturn]
  split
  · rename_i hlast
    obtain ⟨t, rfl⟩ := List.getLast?_eq_some_iff.mp hlast
    -- The carriage return is a character of its own, and it is white space.
    have hchars : Utf8.chars (t ++ [octet '\r']) = Utf8.chars t ++ [some '\r'] := by
      rw [Utf8.isCut_cons t (by decide), Utf8.chars_cons_of_lt (by decide), Utf8.chars_nil]
      rfl
    rw [hchars, List.getElem?_append] at h
    rw [List.dropLast_concat]
    split at h
    · exact h
    · rw [List.getElem?_singleton] at h
      split at h
      · obtain rfl := Option.some.inj h
        exact absurd hc (by decide)
      · exact absurd h (by simp)
  · exact h

/-- The character at a place of a line is not white space. -/
theorem Line.exists_char {l : Line} {raw : Bytes} {k : Nat}
    (h : IsFirst raw k ∨ OpensList l raw k) :
    ∃ c, (Utf8.chars raw)[k]? = some c ∧ Bytes.isBlank? c = false := by
  rcases h with h | h
  · exact h.1
  · exact ⟨some '(', h.1, by decide⟩

namespace Diagnostic

/-- **Where a diagnostic points**: at a character `c` of a significant line `l`, which is the line
`raw` of the source. It is the first character of the line or opens its attribute list. -/
structure PointsAt (d : Diagnostic) (src : Bytes) (l : Line) (raw : Bytes) (k : Nat)
    (c : Option Char) : Prop where
  significant : l ∈ Line.ofSource src
  source : ∃ i, l.number = i + 1 ∧ (src.splitOn (octet '\n'))[i]? = some raw
  line : Line.ofRaw? l.number raw = some l
  position : d.position = ⟨l.number, k + 1⟩
  char : (Utf8.chars raw)[k]? = some c
  place : Line.IsFirst raw k ∨ Line.OpensList l raw k

/-- **Every diagnostic points into its source.** Behind the head of a tag line there is still the
parenthesis, so the column is a word. -/
theorem exists_pointsAt {src : Bytes} (hsrc : src.length < 0x8000000000000000) {d : Diagnostic}
    (h : d ∈ (SourceTree.ofSource src).diagnostics) :
    octet '\n' ∉ d.message ∧ ∃ l raw k c, d.PointsAt src l raw k c := by
  have hlines : ∀ l ∈ Line.ofSource src, octet '\n' ∉ l.text := by
    intro l hl
    obtain ⟨i, raw, hraw, hline⟩ := Line.exists_raw_of_mem_ofSource hl
    exact (Line.isPart_of_ofRaw? hline).notMem
      (Bytes.notMem_of_mem_splitOn (List.mem_of_getElem? hraw))
  obtain ⟨x, hx, hplace, hrepeated⟩ := SourceTree.exists_row_of_mem_diagnostics hlines h
  refine ⟨Problem.feed_notMem_message hrepeated, ?_⟩
  have hline : x.line ∈ Line.ofSource src := by
    rw [← Layout.map_line_ofLines (Line.ofSource src)]
    exact List.mem_map_of_mem hx
  obtain ⟨i, raw, hraw, hofRaw⟩ := Line.exists_raw_of_mem_ofSource hline
  have hnumber := Line.number_of_ofRaw? hofRaw
  have hpoints {k : Nat} (hposition : d.position = ⟨x.line.number, k + 1⟩)
      (hplace : Line.IsFirst raw k ∨ Line.OpensList x.line raw k) :
      ∃ l raw k c, d.PointsAt src l raw k c := by
    obtain ⟨c, hc, -⟩ := Line.exists_char hplace
    exact ⟨x.line, raw, k, c, hline, ⟨i, hnumber, hraw⟩, by rwa [hnumber], hposition, hc, hplace⟩
  rcases hplace with hplace | ⟨t, list, htag, hlist, hplace⟩
  · exact hpoints hplace (Or.inl (Line.isFirst_indent hofRaw))
  · -- The column is counted in words, and it does not overflow since the line is part of the
    -- source.
    have hopens := Line.opensList_indent hofRaw (Row.parse?_of_tag? htag) hlist
    refine hpoints ?_ (Or.inr hopens)
    have hcolumn : x.line.indent + t.head.length < raw.length :=
      Nat.lt_of_lt_of_le (List.getElem?_eq_some_iff.mp hopens.1).1 (Utf8.length_chars_le raw)
    have hbound := Bytes.add_length_le_of_splitOn hraw
    have hwrap : wrap64 ((x.line.indent + t.head.length + 1 : Nat) : Int) =
        (x.line.indent + t.head.length + 1 : Nat) := wrap64_of_lt (by omega)
    have hadvance : ((x.line.indent : Int) + 1 + (t.headLength : Nat)) =
        (x.line.indent + t.head.length + 1 : Nat) := by
      rw [← TagLine.length_head]
      omega
    rw [hplace, Position.advance, Line.position, hadvance, hwrap]
    congr 1

end Diagnostic

namespace Build

/-! ### The lines of a report -/

/-- Where and what is reported. -/
def header (name : Bytes) (d : Diagnostic) : Bytes :=
  name ++ utf8 ":" ++ d.position.text ++ utf8 ": " ++ d.severity.name ++ utf8 ": " ++ d.message

/-- A line of the source behind its number. -/
def numberedLine (number : Nat) (raw : Bytes) : Bytes :=
  decimalNat number ++ utf8 " | " ++ raw.dropReturn

/-- The line below, with a caret under a character. -/
def caretLine (number k : Nat) : Bytes :=
  List.replicate (decimalNat number).length (octet ' ') ++ utf8 " | " ++
    List.replicate k (octet ' ') ++ utf8 "^"

/-- The number of characters in front of the source, in both of these lines. -/
def margin (number : Nat) : Nat := (decimalNat number).length + 3

/-- **What is shown for a diagnostic**: three lines, of which the last two show the line of the
source and the caret below its character `c`. -/
structure Shown (name src : Bytes) (d : Diagnostic) (number : Nat) (raw : Bytes) (k : Nat)
    (c : Option Char) : Prop where
  context : d.context? src 0 = some ⟨[(number, raw.dropReturn)], d.position⟩
  lines : (reportOne name src d).splitOn (octet '\n') =
    [header name d, numberedLine number raw, caretLine number k, []]
  char : (Utf8.chars (numberedLine number raw))[margin number + k]? = some c
  caret : (Utf8.chars (caretLine number k))[margin number + k]? = some (some '^')

theorem feed_notMem_header {name : Bytes} (hname : octet '\n' ∉ name) {d : Diagnostic}
    (hmessage : octet '\n' ∉ d.message) : octet '\n' ∉ header name d := by
  have hnumber (n : Int) : octet '\n' ∉ decimalInt n :=
    feed_notMem_of_avoids (avoids_of_isCode (isCode_decimalInt n))
  have hposition : octet '\n' ∉ d.position.text := by
    rw [Position.text]
    split
    · decide
    · exact List.not_mem_append (List.not_mem_append (hnumber _) (by decide)) (hnumber _)
  have hseverity : octet '\n' ∉ d.severity.name := by cases d.severity <;> decide
  simp only [header, List.mem_append, not_or]
  exact ⟨⟨⟨⟨⟨⟨hname, by decide⟩, hposition⟩, by decide⟩, hseverity⟩, by decide⟩, hmessage⟩

/-- Behind an ASCII margin a line has the characters of what follows. -/
theorem getElem?_chars_margin {m s : Bytes} (hm : isCode m) (k : Nat) :
    (Utf8.chars (m ++ s))[m.length + k]? = (Utf8.chars s)[k]? := by
  have hascii : ∀ b ∈ m, b.toNat < 0x80 := by
    intro b hb
    have hcode := List.all_eq_true.mp hm b hb
    simp only [isCodeOctet, Bool.and_eq_true, decide_eq_true_eq] at hcode
    omega
  have hlength : (Utf8.chars m).length = m.length := by
    rw [Utf8.chars_of_ascii hascii, List.length_map]
  rw [Utf8.isCut_of_isValid (isValid_of_isCode hm) s, ← hlength,
    List.getElem?_append_right (Nat.le_add_right _ k), Nat.add_sub_cancel_left]

theorem getElem?_chars_caretLine (number k : Nat) :
    (Utf8.chars (caretLine number k))[margin number + k]? = some (some '^') := by
  have hblanks (n : Nat) : isCode (List.replicate n (octet ' ')) := by
    refine List.all_eq_true.mpr fun b hb => ?_
    rw [List.eq_of_mem_replicate hb]
    decide
  have hcode : isCode (List.replicate (decimalNat number).length (octet ' ') ++ utf8 " | " ++
      List.replicate k (octet ' ')) := by
    rw [isCode_append, isCode_append, hblanks, hblanks]
    rfl
  have hmargin : margin number + k = (List.replicate (decimalNat number).length (octet ' ') ++
      utf8 " | " ++ List.replicate k (octet ' ')).length := by
    rw [List.length_append, List.length_append, List.length_replicate, List.length_replicate]
    rfl
  have hcaret := getElem?_chars_margin hcode (s := utf8 "^") 0
  rw [Nat.add_zero, ← hmargin] at hcaret
  rw [caretLine, hcaret, show utf8 "^" = [octet '^'] from rfl, Utf8.chars_cons_of_lt (by decide)]
  rfl

section Pointed

variable {src : Bytes} {d : Diagnostic} {l : Line} {raw : Bytes} {k : Nat} {c : Option Char}
  (h : d.PointsAt src l raw k c)

include h

/-- The numbered line shows the character behind the margin. -/
theorem getElem?_chars_numberedLine :
    (Utf8.chars (numberedLine l.number raw))[margin l.number + k]? = some c := by
  obtain ⟨c', hc', hblank⟩ := Line.exists_char h.place
  obtain rfl : c' = c := Option.some.inj (hc'.symm.trans h.char)
  have hcode : isCode (decimalNat l.number ++ utf8 " | ") := by
    rw [isCode_append, isCode_decimalNat]
    rfl
  have hmargin : margin l.number = (decimalNat l.number ++ utf8 " | ").length := by
    rw [List.length_append]
    rfl
  rw [numberedLine, hmargin, getElem?_chars_margin hcode]
  exact Bytes.getElem?_chars_dropReturn hc' hblank

variable (hsrc : src.length < 0x8000000000000000)

include hsrc

theorem context?_eq :
    d.context? src 0 = some ⟨[(l.number, raw.dropReturn)], d.position⟩ := by
  obtain ⟨i, hnumber, hraw⟩ := h.source
  have hne : raw ≠ [] := by
    rintro rfl
    exact absurd h.char (by simp)
  rw [Diagnostic.context?, h.position, hnumber]
  exact SourceContext.around?_line hsrc hraw hne _

/-- **What is written for a diagnostic is three lines.** -/
theorem reportOne_eq (name : Bytes) : reportOne name src d =
    Bytes.unlines [header name d, numberedLine l.number raw, caretLine l.number k] := by
  have hheader : reportOne name src d =
      header name d ++ [octet '\n'] ++ ((d.context? src 0).map SourceContext.text).getD [] := rfl
  rw [hheader, context?_eq h hsrc, h.position, Option.map_some, Option.getD_some,
    SourceContext.text_line, Bytes.unlines_cons (header name d), List.append_assoc,
    List.singleton_append]
  rfl

omit hsrc in
theorem feed_notMem_lines {name : Bytes} (hname : octet '\n' ∉ name)
    (hmessage : octet '\n' ∉ d.message) :
    ∀ w ∈ [header name d, numberedLine l.number raw, caretLine l.number k], octet '\n' ∉ w := by
  obtain ⟨i, -, hraw⟩ := h.source
  have hbody : octet '\n' ∉ raw.dropReturn := (Bytes.isPart_dropReturn raw).notMem
    (Bytes.notMem_of_mem_splitOn (List.mem_of_getElem? hraw))
  have hnumber : octet '\n' ∉ decimalNat l.number :=
    feed_notMem_of_avoids (avoids_decimalNat l.number)
  have hblanks (n : Nat) : octet '\n' ∉ List.replicate n (octet ' ') :=
    fun hmem => absurd (List.eq_of_mem_replicate hmem) (by decide)
  rw [List.forall_mem_cons, List.forall_mem_cons, List.forall_mem_singleton]
  refine ⟨feed_notMem_header hname hmessage, ?_, ?_⟩
  · exact List.not_mem_append (List.not_mem_append hnumber (by decide)) hbody
  · exact List.not_mem_append (List.not_mem_append (List.not_mem_append (hblanks _) (by decide))
      (hblanks k)) (by decide)

theorem shown_of_pointsAt {name : Bytes} (hname : octet '\n' ∉ name)
    (hmessage : octet '\n' ∉ d.message) : Shown name src d l.number raw k c where
  context := context?_eq h hsrc
  lines := by
    rw [reportOne_eq h hsrc, Bytes.splitOn_unlines (feed_notMem_lines h hname hmessage)]
    rfl
  char := getElem?_chars_numberedLine h
  caret := getElem?_chars_caretLine l.number k

end Pointed

/-- The report of diagnostics that point into a source has three lines for each of them. -/
theorem exists_lines_reportAll {name src : Bytes} {ds : List Diagnostic}
    (h : ∀ d ∈ ds, ∃ a b c : Bytes, reportOne name src d = Bytes.unlines [a, b, c] ∧
      ∀ w ∈ [a, b, c], octet '\n' ∉ w) :
    ∃ ls, reportAll name src ds = Bytes.unlines ls ∧ ls.length = 3 * ds.length ∧
      ∀ w ∈ ls, octet '\n' ∉ w := by
  induction ds with
  | nil => exact ⟨[], rfl, rfl, by simp⟩
  | cons d ds ih =>
    rw [List.forall_mem_cons] at h
    obtain ⟨a, b, c, hone, hlines⟩ := h.1
    obtain ⟨ls, hall, hlength, hrest⟩ := ih h.2
    refine ⟨[a, b, c] ++ ls, ?_, ?_, List.forall_mem_append.mpr ⟨hlines, hrest⟩⟩
    · rw [Bytes.unlines_append, ← hone, ← hall, reportAll, List.flatMap_cons]
      rfl
    · rw [List.length_append, hlength, List.length_cons, List.length_cons, List.length_cons,
        List.length_nil, List.length_cons]
      omega

end Build

end LiveMarkup

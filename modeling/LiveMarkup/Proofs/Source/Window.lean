import LiveMarkup.Diagnostic
import LiveMarkup.Proofs.Source.Line
import LiveMarkup.Proofs.Statement
import LiveMarkup.Proofs.Text.Parts

/-!
# The lines around a diagnostic

The context of a diagnostic is a window on its source: the lines that are at most some number of
lines away from the line of the diagnostic, as far as there are any.
`LiveMarkup.SourceContext.IsWindow` says which lines these are, and
`LiveMarkup.SourceContext.IsAround` adds how they are written: one row for each of them, and a row
with a caret behind the row of the line.

The last number of the window is a sum of two words. Where the sum is no word it wraps around and is
negative, and then nothing is shown at all. In all other cases the context is the window it should
be (`LiveMarkup.Diagnostic.context_isAround`).
-/

namespace LiveMarkup

/-- A number that fits into a word is not changed. -/
theorem wrap64_of_lt {n : Nat} (h : n < 0x8000000000000000) : wrap64 n = n := by
  rw [wrap64, Int.bmod_def]
  split <;> omega

/-- A sum of two words that is too large for a word is negative. -/
theorem wrap64_neg {n : Int} (h : 0x8000000000000000 ≤ n) (hlt : n < 0x10000000000000000) :
    wrap64 n < 0 := by
  rw [wrap64, Int.bmod_def]
  split <;> omega

namespace SourceContext

/-! ### Numbered lines -/

/-- All lines of a source, numbered from one. -/
def numbered (src : Bytes) : List (Int × Bytes) :=
  (src.splitOn (octet '\n')).zipIdx.map fun (text, i) => ((i + 1 : Int), Bytes.dropReturn text)

theorem around?_eq (src : Bytes) (p : Position) (radius : Int) : around? src p radius =
    if p.line < 1 ∨ (src.splitOn (octet '\n')).length < p.line then none
    else some ⟨(numbered src).filter fun l => max (p.line - max radius 0) 1 ≤ l.1 &&
      l.1 ≤ lastShown p.line (max radius 0) (src.splitOn (octet '\n')).length, p⟩ := rfl

theorem getElem?_numbered (src : Bytes) (i : Nat) : (numbered src)[i]? =
    (src.splitOn (octet '\n'))[i]?.map fun raw => ((i + 1 : Int), Bytes.dropReturn raw) := by
  rw [numbered, List.getElem?_map, List.getElem?_zipIdx, Option.map_map]
  simp [Function.comp_def]

theorem number_of_getElem? {src : Bytes} {i : Nat} {l : Int × Bytes}
    (h : (numbered src)[i]? = some l) : l.1 = i + 1 := by
  rw [getElem?_numbered] at h
  obtain ⟨raw, -, rfl⟩ := Option.map_eq_some_iff.mp h
  rfl

/-- **The lines with numbers in an interval** are found by counting: those in front have smaller
numbers, and those behind have larger ones. -/
theorem filter_numbered (src : Bytes) {first : Int} (hfirst : 1 ≤ first) (last : Int) :
    ((numbered src).filter fun l => first ≤ l.1 && l.1 ≤ last) =
      ((numbered src).drop (first - 1).toNat).take (last - first + 1).toNat := by
  generalize ha : (first - 1).toNat = a
  generalize hc : (last - first + 1).toNat = c
  -- The lines are split at both ends of the interval; only the middle part is left by the filter.
  have hsplit : numbered src = (numbered src).take a ++
      (((numbered src).drop a).take c ++ (numbered src).drop (a + c)) := by
    rw [← List.drop_drop, List.take_append_drop, List.take_append_drop]
  have hbefore : ∀ l ∈ (numbered src).take a, l.1 < first := by
    intro l hl
    obtain ⟨i, hi⟩ := List.mem_iff_getElem?.mp hl
    rw [List.getElem?_take, Option.ite_none_right_eq_some] at hi
    obtain ⟨hlt, hi⟩ := hi
    have hnumber := number_of_getElem? hi
    omega
  have hwithin : ∀ l ∈ ((numbered src).drop a).take c, first ≤ l.1 ∧ l.1 ≤ last := by
    intro l hl
    obtain ⟨i, hi⟩ := List.mem_iff_getElem?.mp hl
    rw [List.getElem?_take, Option.ite_none_right_eq_some] at hi
    obtain ⟨hlt, hi⟩ := hi
    have hnumber := number_of_getElem? (List.getElem?_drop ▸ hi)
    omega
  have hbehind : ∀ l ∈ (numbered src).drop (a + c), ¬(first ≤ l.1 ∧ l.1 ≤ last) := by
    intro l hl
    obtain ⟨i, hi⟩ := List.mem_iff_getElem?.mp hl
    have hnumber := number_of_getElem? (List.getElem?_drop ▸ hi)
    omega
  conv_lhs => rw [hsplit]
  rw [List.filter_append, List.filter_append, List.filter_eq_nil_iff.mpr ?_,
    List.filter_eq_self.mpr ?_, List.filter_eq_nil_iff.mpr ?_, List.nil_append, List.append_nil]
  · intro l hl
    simpa using hbehind l hl
  · intro l hl
    simpa using hwithin l hl
  · intro l hl
    have hlt := hbefore l hl
    simp only [Bool.and_eq_true, decide_eq_true_eq]
    omega

/-! ### Windows -/

/-- **The lines from one number to another**: their numbers are consecutive, and each of them is the
line of the source that has its number, less a carriage return at its end. -/
structure IsWindow (src : Bytes) (first last : Int) (ls : List (Int × Bytes)) : Prop where
  length : ls.length = (last - first + 1).toNat
  number : ∀ (i : Nat) (l : Int × Bytes), ls[i]? = some l → l.1 = first + i
  source : ∀ l ∈ ls, ∃ (k : Nat) (raw : Bytes), (src.splitOn (octet '\n'))[k]? = some raw ∧
    l = ((k + 1 : Int), raw.dropReturn)

/-- Lines that are there and are chosen by their numbers are a window. -/
theorem isWindow_filter {src : Bytes} {first last : Int} (hfirst : 1 ≤ first)
    (hlast : last ≤ (src.splitOn (octet '\n')).length) :
    IsWindow src first last ((numbered src).filter fun l => first ≤ l.1 && l.1 ≤ last) := by
  refine ⟨?_, fun i l hl => ?_, fun l hl => ?_⟩
  · have hlength : (numbered src).length = (src.splitOn (octet '\n')).length := by
      rw [numbered, List.length_map, List.length_zipIdx]
    rw [filter_numbered src hfirst, List.length_take, List.length_drop, hlength]
    omega
  · rw [filter_numbered src hfirst, List.getElem?_take, Option.ite_none_right_eq_some,
      List.getElem?_drop] at hl
    have hnumber := number_of_getElem? hl.2
    omega
  · obtain ⟨k, hk⟩ := List.mem_iff_getElem?.mp (List.mem_of_mem_filter hl)
    rw [getElem?_numbered] at hk
    obtain ⟨raw, hraw, rfl⟩ := Option.map_eq_some_iff.mp hk
    exact ⟨k, raw, hraw, rfl⟩

namespace IsWindow

variable {src : Bytes} {first last : Int} {ls : List (Int × Bytes)}

theorem feed_notMem (h : IsWindow src first last ls) {l : Int × Bytes} (hl : l ∈ ls) :
    octet '\n' ∉ l.2 := by
  obtain ⟨k, raw, hraw, rfl⟩ := h.source l hl
  exact (Bytes.isPart_dropReturn raw).notMem
    (Bytes.notMem_of_mem_splitOn (List.mem_of_getElem? hraw))

/-- The last line has the last number. -/
theorem getLast? (h : IsWindow src first last ls) (hle : first ≤ last) :
    ∃ text, ls.getLast? = some (last, text) := by
  have hlength := h.length
  have hlt : ls.length - 1 < ls.length := by omega
  have hlast : ls[ls.length - 1]? = some ls[ls.length - 1] := List.getElem?_eq_getElem hlt
  have hnumber := h.number _ _ hlast
  refine ⟨ls[ls.length - 1].2, ?_⟩
  rw [List.getLast?_eq_getElem?, hlast]
  congr 1
  exact Prod.ext (by omega) rfl

/-- **A number of the window is that of one line**, with smaller numbers in front and larger ones
behind. -/
theorem exists_split (h : IsWindow src first last ls) {n : Int} (hfirst : first ≤ n)
    (hlast : n ≤ last) : ∃ before text after, ls = before ++ (n, text) :: after ∧
      (∀ l ∈ before, l.1 ≠ n) ∧ ∀ l ∈ after, l.1 ≠ n := by
  obtain ⟨k, hk⟩ : ∃ k : Nat, n = first + k := ⟨(n - first).toNat, by omega⟩
  have hlength := h.length
  have hlt : k < ls.length := by omega
  have hnumber := h.number k ls[k] (List.getElem?_eq_getElem hlt)
  refine ⟨ls.take k, ls[k].2, ls.drop (k + 1), ?_, fun l hl => ?_, fun l hl => ?_⟩
  · have hline : (n, ls[k].2) = ls[k] := Prod.ext (by omega) rfl
    rw [hline, List.getElem_cons_drop, List.take_append_drop]
  · obtain ⟨i, hi⟩ := List.mem_iff_getElem?.mp hl
    rw [List.getElem?_take, Option.ite_none_right_eq_some] at hi
    have hsmaller := h.number i l hi.2
    omega
  · obtain ⟨i, hi⟩ := List.mem_iff_getElem?.mp hl
    rw [List.getElem?_drop] at hi
    have hlarger := h.number _ l hi
    omega

end IsWindow

/-! ### Rows -/

/-- A line behind its number, which stands at the right of a column. -/
def numberedRow (width : Nat) (l : Int × Bytes) : Bytes :=
  padded width (decimalInt l.1) ++ utf8 " | " ++ l.2

/-- A caret below a column of the line above. -/
def caretRow (width : Nat) (column : Int) : Bytes :=
  padded width [] ++ utf8 " | " ++ List.replicate (column - 1).toNat (octet ' ') ++ utf8 "^"

/-- The caret rows of a position: none if there is no column to point at. -/
def caretRows (width : Nat) (column : Int) : List Bytes :=
  if 0 < column then [caretRow width column] else []

theorem eq_of_mem_caretRows {width : Nat} {column : Int} {row : Bytes}
    (h : row ∈ caretRows width column) : row = caretRow width column := by
  rw [caretRows] at h
  split at h
  · exact List.mem_singleton.mp h
  · exact absurd h List.not_mem_nil

/-- The rows that show a line, if the position is `p`. -/
def rowsOf (width : Nat) (p : Position) (l : Int × Bytes) : List Bytes :=
  numberedRow width l :: if l.1 = p.line then caretRows width p.column else []

/-- **A context is written in rows.** -/
theorem text_eq_unlines {c : SourceContext} {final : Int × Bytes}
    (h : c.lines.getLast? = some final) :
    c.text = Bytes.unlines (c.lines.flatMap (rowsOf (decimalInt final.1).length c.position)) := by
  have hfeed : utf8 "\n" = [octet '\n'] := rfl
  have hcaret : utf8 "^\n" = utf8 "^" ++ [octet '\n'] := rfl
  rw [text, h]
  dsimp only
  rw [Bytes.unlines, List.flatMap_assoc]
  refine List.flatMap_congr fun l _ => ?_
  rw [rowsOf, caretRows, hfeed, hcaret]
  by_cases hline : l.1 = c.position.line <;> by_cases hcolumn : 0 < c.position.column <;>
    simp [hline, hcolumn, numberedRow, caretRow]

theorem feed_notMem_padded {width : Nat} {s : Bytes} (hs : octet '\n' ∉ s) :
    octet '\n' ∉ padded width s :=
  List.not_mem_append (fun hmem => absurd (List.eq_of_mem_replicate hmem) (by decide)) hs

theorem feed_notMem_rowsOf {width : Nat} {p : Position} {l : Int × Bytes}
    (hl : octet '\n' ∉ l.2) {row : Bytes} (hrow : row ∈ rowsOf width p l) : octet '\n' ∉ row := by
  rcases List.mem_cons.mp hrow with rfl | hrow
  · have hnumber : octet '\n' ∉ decimalInt l.1 :=
      feed_notMem_of_avoids (avoids_of_isCode (isCode_decimalInt l.1))
    exact List.not_mem_append (List.not_mem_append (feed_notMem_padded hnumber) (by decide)) hl
  · have hcaret : row ∈ caretRows width p.column := by
      split at hrow
      · exact hrow
      · exact absurd hrow List.not_mem_nil
    obtain rfl := eq_of_mem_caretRows hcaret
    have hblanks : octet '\n' ∉ List.replicate (p.column - 1).toNat (octet ' ') :=
      fun hmem => absurd (List.eq_of_mem_replicate hmem) (by decide)
    exact List.not_mem_append (List.not_mem_append (List.not_mem_append
      (feed_notMem_padded (by simp)) (by decide)) hblanks) (by decide)

/-- Lines with other numbers have one row each. -/
theorem flatMap_rowsOf (width : Nat) {p : Position} {ls : List (Int × Bytes)}
    (h : ∀ l ∈ ls, l.1 ≠ p.line) : ls.flatMap (rowsOf width p) = ls.map (numberedRow width) := by
  rw [List.map_eq_flatMap]
  refine List.flatMap_congr fun l hl => ?_
  rw [rowsOf, if_neg (h l hl)]

/-! ### What is around a position -/

/-- **What should be shown around a position**: the lines that are at most `radius` lines away, with
a row for each of them and a caret row directly behind that of the position. -/
structure IsAround (src : Bytes) (p : Position) (radius : Int) (c : SourceContext) : Prop where
  position : c.position = p
  lines : IsWindow src (max 1 (p.line - max radius 0))
    (min (src.splitOn (octet '\n')).length (p.line + max radius 0)) c.lines
  rows : ∃ width before text after, c.lines = before ++ (p.line, text) :: after ∧
    width = (decimalInt (min (src.splitOn (octet '\n')).length (p.line + max radius 0))).length ∧
    c.text.splitOn (octet '\n') =
      before.map (numberedRow width) ++ numberedRow width (p.line, text) ::
        caretRows width p.column ++ after.map (numberedRow width) ++ [[]]

/-- The rows of a window that has the line of the position. -/
theorem isAround_of_isWindow {src : Bytes} {p : Position} {radius : Int} {c : SourceContext}
    (hposition : c.position = p) (hpos : 1 ≤ p.line)
    (hle : p.line ≤ (src.splitOn (octet '\n')).length)
    (h : IsWindow src (max 1 (p.line - max radius 0))
      (min (src.splitOn (octet '\n')).length (p.line + max radius 0)) c.lines) :
    IsAround src p radius c := by
  refine ⟨hposition, h, ?_⟩
  obtain ⟨final, hfinal⟩ := h.getLast? (by omega)
  obtain ⟨before, text, after, hsplit, hbefore, hafter⟩ := h.exists_split (n := p.line)
    (by omega) (by omega)
  refine ⟨_, before, text, after, hsplit, rfl, ?_⟩
  rw [text_eq_unlines hfinal, hposition, Bytes.splitOn_unlines, hsplit, List.flatMap_append,
    List.flatMap_cons, flatMap_rowsOf _ hbefore, flatMap_rowsOf _ hafter, rowsOf, if_pos rfl]
  · simp
  · intro row hrow
    obtain ⟨l, hl, hrow⟩ := List.mem_flatMap.mp hrow
    exact feed_notMem_rowsOf (h.feed_notMem hl) hrow

/-- There is no context exactly where there is no line. -/
theorem around?_eq_none_iff {src : Bytes} {p : Position} {radius : Int} :
    around? src p radius = none ↔ p.line < 1 ∨ (src.splitOn (octet '\n')).length < p.line := by
  rw [around?_eq]
  split
  · rename_i h
    exact iff_of_true rfl h
  · rename_i h
    exact iff_of_false (Option.some_ne_none _) h

section Found

variable {src : Bytes} {p : Position} {radius : Int} {c : SourceContext}
  (h : around? src p radius = some c)

include h

theorem eq_of_around? : 1 ≤ p.line ∧ p.line ≤ (src.splitOn (octet '\n')).length ∧
    c = ⟨(numbered src).filter fun l => max (p.line - max radius 0) 1 ≤ l.1 &&
      l.1 ≤ lastShown p.line (max radius 0) (src.splitOn (octet '\n')).length, p⟩ := by
  rw [around?_eq] at h
  split at h
  · cases h
  · rename_i hline
    exact ⟨by omega, by omega, (Option.some.inj h).symm⟩

/-- If the last number is a word, what is found is what should be shown. -/
theorem isAround_of_lt (hlt : p.line + max radius 0 < 0x8000000000000000) :
    IsAround src p radius c := by
  obtain ⟨hpos, hle, rfl⟩ := eq_of_around? h
  have hlast : lastShown p.line (max radius 0) (src.splitOn (octet '\n')).length =
      min ((src.splitOn (octet '\n')).length : Int) (p.line + max radius 0) := by
    obtain ⟨n, hn⟩ : ∃ n : Nat, p.line + max radius 0 = n := Int.eq_ofNat_of_zero_le (by omega)
    rw [lastShown, hn, wrap64_of_lt (by omega), Int.min_comm]
  refine isAround_of_isWindow rfl hpos hle ?_
  dsimp only
  rw [hlast, Int.max_comm (p.line - max radius 0) 1]
  exact isWindow_filter (by omega) (by omega)

/-- If the last number is no word, nothing is found: every line has a larger number than the one
that the sum wraps around to. -/
theorem eq_nil_of_le (hline : p.line < 0x8000000000000000) (hradius : radius < 0x8000000000000000)
    (hle : 0x8000000000000000 ≤ p.line + max radius 0) : c = ⟨[], p⟩ := by
  obtain ⟨hpos, -, rfl⟩ := eq_of_around? h
  have hwrap : wrap64 (p.line + max radius 0) < 0 := wrap64_neg hle (by omega)
  have hlast : lastShown p.line (max radius 0) (src.splitOn (octet '\n')).length < 0 := by
    rw [lastShown]
    omega
  have hcount : (lastShown p.line (max radius 0) (src.splitOn (octet '\n')).length -
      max (p.line - max radius 0) 1 + 1).toNat = 0 := by omega
  rw [filter_numbered src (by omega), hcount, List.take_zero]

end Found

end SourceContext

namespace Diagnostic

open SourceContext

/-- **The context of a diagnostic is the window around its line**, exactly if the last number of the
window is a word; if it is not, nothing is shown. There is no context only if there is no such line.
-/
theorem context_isAround (src : Bytes) (d : Diagnostic) {radius : Int}
    (hline : d.position.line < 0x8000000000000000) (hradius : radius < 0x8000000000000000) :
    (d.context? src radius = none ↔
      d.position.line < 1 ∨ (src.splitOn (octet '\n')).length < d.position.line) ∧
    ∀ c, d.context? src radius = some c →
      (IsAround src d.position radius c ↔ d.position.line + max radius 0 < 0x8000000000000000) ∧
      (0x8000000000000000 ≤ d.position.line + max radius 0 →
        c = ⟨[], d.position⟩ ∧ c.text = []) := by
  refine ⟨around?_eq_none_iff, fun c hc => ⟨⟨fun haround => ?_, isAround_of_lt hc⟩, fun hle => ?_⟩⟩
  · by_contra hge
    obtain rfl := eq_nil_of_le hc hline hradius (Int.not_lt.mp hge)
    obtain ⟨width, before, text, after, hlines, -⟩ := haround.rows
    simp at hlines
  · obtain rfl := eq_nil_of_le hc hline hradius hle
    exact ⟨rfl, rfl⟩

/-- With the largest radius for its line a diagnostic still has its context, all of the source. -/
theorem context_isAround_widest :
    (2 : Int) < 0x8000000000000000 ∧ (0x7ffffffffffffffd : Int) < 0x8000000000000000 ∧
    context? ⟨⟨2, 2⟩, .orphanStyle⟩ (utf8 "p\r\n  q\nr") 0x7ffffffffffffffd =
      some ⟨[(1, utf8 "p"), (2, utf8 "  q"), (3, utf8 "r")], ⟨2, 2⟩⟩ ∧
    IsAround (utf8 "p\r\n  q\nr") ⟨2, 2⟩ 0x7ffffffffffffffd
      ⟨[(1, utf8 "p"), (2, utf8 "  q"), (3, utf8 "r")], ⟨2, 2⟩⟩ := by
  have hcontext : context? ⟨⟨2, 2⟩, .orphanStyle⟩ (utf8 "p\r\n  q\nr") 0x7ffffffffffffffd =
      some ⟨[(1, utf8 "p"), (2, utf8 "  q"), (3, utf8 "r")], ⟨2, 2⟩⟩ := by decide +kernel
  have hline : (2 : Int) < 0x8000000000000000 := by decide
  have hradius : (0x7ffffffffffffffd : Int) < 0x8000000000000000 := by decide
  have haround := (context_isAround (utf8 "p\r\n  q\nr") ⟨⟨2, 2⟩, .orphanStyle⟩ hline hradius).2
  exact ⟨hline, hradius, hcontext, (haround _ hcontext).1.mpr (by decide)⟩

/-- With the largest radius of all the only line of a source is not shown. -/
theorem context_not_isAround :
    context? ⟨⟨1, 1⟩, .orphanStyle⟩ (utf8 "a") 0x7fffffffffffffff = some ⟨[], ⟨1, 1⟩⟩ ∧
    ¬IsAround (utf8 "a") ⟨1, 1⟩ 0x7fffffffffffffff ⟨[], ⟨1, 1⟩⟩ := by
  refine ⟨by decide +kernel, fun haround => ?_⟩
  obtain ⟨width, before, text, after, hlines, -⟩ := haround.rows
  simp at hlines

end Diagnostic

end LiveMarkup

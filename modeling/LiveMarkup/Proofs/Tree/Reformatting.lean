import LiveMarkup.Proofs.Text.Margins
import LiveMarkup.Proofs.Tree.Simulation
import Mathlib.Order.Monotone.Basic

/-!
# The layout of a source does not matter

Of the lines of a source only the texts of the significant ones count, and their indents only as far
as they are compared: `LiveMarkup.Line.SameLayout` is the relation between the significant lines of
two sources, and the output is the same if it holds.

The rest is about sources as they are written. What a line between two line feeds comes to is its
indent and its text (`LiveMarkup.Bytes.shape?`); a carriage return at its end is white space like
any other. Blank lines and comments come to nothing, white space at the end of a line does not
count, and a new indent changes nothing but the indent. So every layout edit
(`LiveMarkup.LayoutEdit`) keeps the layout of the significant lines.
-/

namespace LiveMarkup

/-! ### What a line comes to -/

namespace Line

/-- A line without its number. -/
def shape (l : Line) : Nat × Bytes := (l.indent, l.text)

end Line

namespace Bytes

/-- The indent and the text of what stands between two line feeds, if it counts. -/
def shape? (raw : Bytes) : Option (Nat × Bytes) :=
  if Line.isSignificant raw.trim then some (raw.indentWidth, raw.trim) else none

theorem isWhite_nil : isWhite [] := isWhite_iff.mpr ⟨[], rfl, by simp⟩

theorem isWhite_return : isWhite [octet '\r'] :=
  isWhite_iff.mpr ⟨['\r'], rfl, by simp; decide⟩

theorem ne_nil_of_isSignificant {text : Bytes} (h : Line.isSignificant text) : text ≠ [] := by
  rintro rfl
  exact absurd h (by decide)

/-- **White space at the end of a line does not count.** -/
theorem shape?_append_white (body : Bytes) {w : Bytes} (hw : w.isWhite) :
    shape? (body ++ w) = shape? body := by
  rw [shape?, shape?, trim_append_white hw]
  split
  · rename_i h
    rw [indentWidth_append_white hw (ne_nil_of_isSignificant h)]
  · rfl

end Bytes

namespace Line

/-- A carriage return at the end of a line is white space like any other. -/
theorem ofRaw?_eq_shape? (number : Nat) (raw : Bytes) :
    ofRaw? number raw = raw.shape?.map fun y => ⟨number, y.1, y.2⟩ := by
  have hshape : raw.dropReturn.shape? = raw.shape? := by
    rw [Bytes.dropReturn]
    split
    · rename_i hlast
      rw [← Bytes.shape?_append_white raw.dropLast Bytes.isWhite_return,
        List.dropLast_append_getLast? _ hlast]
    · rfl
  rw [← hshape, ofRaw?, Bytes.shape?]
  split <;> rfl

/-- **The lines of a source without their numbers** are what each of its lines comes to. -/
theorem map_shape_ofRaws (number : Nat) (raws : List Bytes) :
    (ofRaws number raws).map shape = raws.filterMap Bytes.shape? := by
  induction raws generalizing number with
  | nil => rfl
  | cons raw raws ih =>
    have hraw := ofRaw?_eq_shape? number raw
    rw [ofRaws]
    cases hs : raw.shape? with
    | none =>
      rw [hs, Option.map_none] at hraw
      rw [hraw, List.filterMap_cons_none hs]
      exact ih (number + 1)
    | some y =>
      rw [hs, Option.map_some] at hraw
      rw [hraw, List.filterMap_cons_some hs]
      exact congrArg (y :: ·) (ih (number + 1))

/-! ### Lines that are laid out alike -/

/-- **Lines are laid out alike**: they have the same texts, and their indents are ordered alike. -/
structure SameLayout (ls ms : List Line) : Prop where
  texts : ls.map text = ms.map text
  order : ∀ (i j : Nat) (l l' m m' : Line), ls[i]? = some l → ms[i]? = some m →
    ls[j]? = some l' → ms[j]? = some m' → (l.indent ≤ l'.indent ↔ m.indent ≤ m'.indent)

namespace SameLayout

variable {ls ms ks : List Line}

theorem length (h : SameLayout ls ms) : ls.length = ms.length := by
  simpa using congrArg List.length h.texts

theorem symm (h : SameLayout ls ms) : SameLayout ms ls where
  texts := h.texts.symm
  order i j l l' m m' hl hm hl' hm' := (h.order i j m m' l l' hm hl hm' hl').symm

theorem trans (h : SameLayout ls ms) (h' : SameLayout ms ks) : SameLayout ls ks where
  texts := h.texts.trans h'.texts
  order i j l l' k k' hl hk hl' hk' := by
    have hbetween {n : Nat} {x : Line} (hx : ls[n]? = some x) : ∃ m, ms[n]? = some m := by
      have hn := (List.getElem?_eq_some_iff.mp hx).1
      exact ⟨_, List.getElem?_eq_getElem (h.length ▸ hn)⟩
    obtain ⟨m, hm⟩ := hbetween hl
    obtain ⟨m', hm'⟩ := hbetween hl'
    exact (h.order i j l l' m m' hl hm hl' hm').trans (h'.order i j m m' k k' hm hk hm' hk')

/-- A strictly monotone change of the indents keeps the layout. -/
theorem of_shapes {f : Nat → Nat} (hf : StrictMono f)
    (h : ms.map shape = (ls.map shape).map (Prod.map f id)) : SameLayout ls ms where
  texts := by
    have htexts := congrArg (List.map Prod.snd) h
    simp only [List.map_map] at htexts
    exact htexts.symm
  order i j l l' m m' hl hm hl' hm' := by
    have hindent {n : Nat} {x y : Line} (hx : ls[n]? = some x) (hy : ms[n]? = some y) :
        y.indent = f x.indent := by
      have hn := congrArg (·[n]?) h
      simp only [List.getElem?_map, hx, hy, Option.map_some, Option.some.injEq] at hn
      exact congrArg Prod.fst hn
    rw [hindent hl hm, hindent hl' hm', hf.le_iff_le]

/-- The pairs of indents of lines that are laid out alike. -/
def Indents (ls ms : List Line) (i i' : Nat) : Prop :=
  ∃ (n : Nat) (l m : Line), ls[n]? = some l ∧ ms[n]? = some m ∧ l.indent = i ∧ m.indent = i'

theorem orderAlike (h : SameLayout ls ms) : OrderAlike (Indents ls ms) := by
  rintro i i' j j' ⟨n, l, m, hl, hm, rfl, rfl⟩ ⟨n', l', m', hl', hm', rfl, rfl⟩
  exact h.order n n' l l' m m' hl hm hl' hm'

/-- Lines that are laid out alike are the same lines with other indents. -/
theorem edited (h : SameLayout ls ms) : Edited (Indents ls ms) (Layout.ofLines ls) ms := by
  have hpairs : List.Forall₂ (fun l m => l.text = m.text ∧ Indents ls ms l.indent m.indent)
      ls ms := by
    refine List.forall₂_iff_get.mpr ⟨h.length, fun i hi hi' => ⟨?_, i, _, _,
      List.getElem?_eq_getElem hi, List.getElem?_eq_getElem hi', rfl, rfl⟩⟩
    have htext := congrArg (·[i]?) h.texts
    simpa [List.getElem?_eq_getElem hi, List.getElem?_eq_getElem hi'] using htext
  have hkept {R : Nat → Nat → Prop} {ls ms : List Line} (r : Reading)
      (h : List.Forall₂ (fun l m => l.text = m.text ∧ R l.indent m.indent) ls ms) :
      Edited R (r.rows ls) ms := by
    induction h generalizing r with
    | nil => exact .nil
    | @cons l m ls ms hlm _ ih => exact .keep hlm.2 hlm.1 (ih (r.step l))
  rw [← Reading.rows_eq_layout]
  exact hkept {} hpairs

end SameLayout

end Line

/-! ### Edits of the layout -/

namespace Bytes

/-- A line is blank or a comment. -/
def Ignored (raw : Bytes) : Prop :=
  raw.isWhite ∨ ∃ w rest : Bytes, raw = w ++ Line.commentMark ++ rest ∧ w.isWhite

/-- Two lines differ in the white space at their ends only. -/
def SameButEnd (raw raw' : Bytes) : Prop :=
  ∃ body w w' : Bytes, raw = body ++ w ∧ raw' = body ++ w' ∧ w.isWhite ∧ w'.isWhite

/-- Two lines differ in the white space in front only, and its width is changed by a function,
unless there is nothing else. -/
def Reindented (f : Nat → Nat) (raw raw' : Bytes) : Prop :=
  ∃ w w' rest : Bytes, raw = w ++ rest ∧ raw' = w' ++ rest ∧ w.isWhite ∧ w'.isWhite ∧
    (Utf8.chars rest).head?.any isBlank? = false ∧
    (rest ≠ [] → Utf8.count w' = f (Utf8.count w))

theorem shape?_of_ignored {raw : Bytes} (h : raw.Ignored) : raw.shape? = none := by
  refine if_neg ?_
  rcases h with hwhite | ⟨w, rest, rfl, hw⟩
  · rw [trim_white hwhite]
    decide
  · have hmark : trim (Line.commentMark ++ rest) = Line.commentMark ++ trimEnd rest := by
      have hsolid : isBlank '/' = false := by decide
      have hfirst : Line.commentMark ++ rest =
          Utf8.encode '/' ++ (Utf8.encode '/' ++ rest) := rfl
      rw [hfirst, trim, trimStart_encode, hsolid, if_neg (by simp), trimEnd_encode,
        trimEnd_encode, hsolid, Bool.and_false, if_neg (by simp), Bool.and_false,
        if_neg (by simp)]
      rfl
    have hafter : after? Line.commentMark (Line.commentMark ++ trimEnd rest) =
        some (trimEnd rest) := rfl
    rw [List.append_assoc, trim_white_append hw, hmark, Line.isSignificant, hafter]
    simp

theorem shape?_of_sameButEnd {raw raw' : Bytes} (h : raw.SameButEnd raw') :
    raw'.shape? = raw.shape? := by
  obtain ⟨body, w, w', rfl, rfl, hw, hw'⟩ := h
  rw [shape?_append_white body hw', shape?_append_white body hw]

/-- Lines that end in a carriage return and a line feed differ from those that end in a line feed at
their ends only. -/
theorem forall₂_sameButEnd_returns {ls : List Bytes} (h : ∀ l ∈ ls, octet '\n' ∉ l) :
    List.Forall₂ SameButEnd ((List.intercalate (utf8 "\n") ls).splitOn (octet '\n'))
      ((List.intercalate (utf8 "\r\n") ls).splitOn (octet '\n')) := by
  have hself (raw : Bytes) : raw.SameButEnd raw :=
    ⟨raw, [], [], (List.append_nil raw).symm, (List.append_nil raw).symm, isWhite_nil,
      isWhite_nil⟩
  induction ls with
  | nil => exact .cons (hself []) .nil
  | cons l ls ih =>
    rw [List.forall_mem_cons] at h
    cases ls with
    | nil =>
      rw [List.intercalate_singleton, List.intercalate_singleton, List.splitOn_eq_singleton h.1]
      exact .cons (hself l) .nil
    | cons m ls =>
      have hreturn : octet '\n' ∉ l ++ [octet '\r'] := by
        rw [List.mem_append, not_or]
        exact ⟨h.1, by decide⟩
      have hlf : List.intercalate (utf8 "\n") (l :: m :: ls) =
          l ++ octet '\n' :: List.intercalate (utf8 "\n") (m :: ls) := by
        rw [List.intercalate_cons_cons, show utf8 "\n" = [octet '\n'] from rfl, List.append_assoc]
        rfl
      have hcrlf : List.intercalate (utf8 "\r\n") (l :: m :: ls) =
          (l ++ [octet '\r']) ++ octet '\n' :: List.intercalate (utf8 "\r\n") (m :: ls) := by
        rw [List.intercalate_cons_cons, show utf8 "\r\n" = [octet '\r', octet '\n'] from rfl,
          List.append_assoc, List.append_assoc]
        rfl
      rw [hlf, hcrlf, List.splitOn_append_cons_self_of_not_mem h.1,
        List.splitOn_append_cons_self_of_not_mem hreturn]
      refine .cons ⟨l, [], [octet '\r'], (List.append_nil l).symm, rfl, isWhite_nil,
        isWhite_return⟩ (ih h.2)

theorem shape?_of_reindented {f : Nat → Nat} {raw raw' : Bytes} (h : raw.Reindented f raw') :
    raw'.shape? = raw.shape?.map (Prod.map f id) := by
  obtain ⟨w, w', rest, rfl, rfl, hw, hw', hrest, hwidth⟩ := h
  rw [shape?, shape?, trim_white_append hw, trim_white_append hw', indentWidth_white_append hw,
    indentWidth_white_append hw', indentWidth_of_head hrest]
  split
  · rename_i hsignificant
    have hne : rest ≠ [] := by
      rintro rfl
      exact ne_nil_of_isSignificant hsignificant (trim_white isWhite_nil)
    rw [hwidth hne]
    rfl
  · rfl

end Bytes

/-- **A layout edit** of the lines of a source: a blank line or a comment is inserted, white space
at the ends of lines is changed, or the lines are indented anew with a strictly monotone change of
widths. -/
inductive LayoutEdit : List Bytes → List Bytes → Prop
  | insert (before after : List Bytes) {raw : Bytes} (h : raw.Ignored) :
    LayoutEdit (before ++ after) (before ++ raw :: after)
  | trailing {raws raws' : List Bytes} (h : List.Forall₂ Bytes.SameButEnd raws raws') :
    LayoutEdit raws raws'
  | reindent {f : Nat → Nat} (hf : StrictMono f) {raws raws' : List Bytes}
    (h : List.Forall₂ (Bytes.Reindented f) raws raws') : LayoutEdit raws raws'

namespace LayoutEdit

/-- What is done to each line is done to what the lines come to. -/
theorem filterMap_shape?_of_forall₂ {f : Nat → Nat} {P : Bytes → Bytes → Prop}
    (hP : ∀ raw raw', P raw raw' → raw'.shape? = raw.shape?.map (Prod.map f id))
    {raws raws' : List Bytes} (h : List.Forall₂ P raws raws') :
    raws'.filterMap Bytes.shape? = (raws.filterMap Bytes.shape?).map (Prod.map f id) := by
  induction h with
  | nil => rfl
  | @cons raw raw' raws raws' hraw _ ih =>
    have hshape := hP raw raw' hraw
    cases hs : raw.shape? with
    | none =>
      rw [hs, Option.map_none] at hshape
      rw [List.filterMap_cons_none hs, List.filterMap_cons_none hshape, ih]
    | some y =>
      rw [hs, Option.map_some] at hshape
      rw [List.filterMap_cons_some hs, List.filterMap_cons_some hshape, ih, List.map_cons]

/-- **A layout edit keeps the layout of the significant lines.** -/
theorem sameLayout {raws raws' : List Bytes} (h : LayoutEdit raws raws') :
    Line.SameLayout (Line.ofRaws 1 raws) (Line.ofRaws 1 raws') := by
  have hid (ys : List (Nat × Bytes)) : ys.map (Prod.map id id) = ys := by
    rw [Prod.map_id, List.map_id]
  cases h with
  | insert before after hraw =>
    refine .of_shapes strictMono_id ?_
    rw [Line.map_shape_ofRaws, Line.map_shape_ofRaws, hid, List.filterMap_append,
      List.filterMap_append, List.filterMap_cons_none (Bytes.shape?_of_ignored hraw)]
  | trailing h =>
    refine .of_shapes strictMono_id ?_
    rw [Line.map_shape_ofRaws, Line.map_shape_ofRaws]
    refine filterMap_shape?_of_forall₂ (fun raw raw' hraw => ?_) h
    rw [Bytes.shape?_of_sameButEnd hraw, Prod.map_id, Option.map_id, id]
  | reindent hf h =>
    refine .of_shapes hf ?_
    rw [Line.map_shape_ofRaws, Line.map_shape_ofRaws]
    exact filterMap_shape?_of_forall₂ (fun _ _ => Bytes.shape?_of_reindented) h

theorem sameLayout_of_eqvGen {raws raws' : List Bytes} (h : Relation.EqvGen LayoutEdit raws raws') :
    Line.SameLayout (Line.ofRaws 1 raws) (Line.ofRaws 1 raws') := by
  induction h with
  | rel _ _ h => exact h.sameLayout
  | refl raws => exact .of_shapes strictMono_id (by rw [Prod.map_id, List.map_id])
  | symm _ _ _ ih => exact ih.symm
  | trans _ _ _ _ _ ih ih' => exact ih.trans ih'

theorem trailing_returns {ls : List Bytes} (h : ∀ l ∈ ls, octet '\n' ∉ l) :
    LayoutEdit ((List.intercalate (utf8 "\n") ls).splitOn (octet '\n'))
      ((List.intercalate (utf8 "\r\n") ls).splitOn (octet '\n')) :=
  .trailing (Bytes.forall₂_sameButEnd_returns h)

end LayoutEdit

namespace SourceTree

theorem sameOutput_of_sameLayout {a b : Bytes}
    (h : Line.SameLayout (Line.ofSource a) (Line.ofSource b)) : SameOutput a b :=
  sameOutput_of_edited h.orderAlike h.edited

/-- **The layout of a source does not matter.** Sources whose significant lines have the same texts
and whose indents are ordered alike have the same document and the same outline. So any number of
layout edits, there and back, leave both as they are: blank lines and comments inserted or taken
away anywhere, white space changed at the ends of lines, lines indented anew by a strictly monotone
change of widths; and lines may end in a line feed or in a carriage return and a line feed. -/
theorem output_ignores_layout :
    (∀ a b : Bytes, Line.SameLayout (Line.ofSource a) (Line.ofSource b) → SameOutput a b) ∧
    (∀ a b : Bytes,
      Relation.EqvGen LayoutEdit (a.splitOn (octet '\n')) (b.splitOn (octet '\n')) →
        SameOutput a b) ∧
    ∀ ls : List Bytes, (∀ l ∈ ls, octet '\n' ∉ l) →
      SameOutput (List.intercalate (utf8 "\n") ls) (List.intercalate (utf8 "\r\n") ls) :=
  ⟨fun _ _ => sameOutput_of_sameLayout,
    fun _ _ h => sameOutput_of_sameLayout (LayoutEdit.sameLayout_of_eqvGen h),
    fun _ h => sameOutput_of_sameLayout (LayoutEdit.trailing_returns h).sameLayout⟩

/-- Lines that are moved to the right, with a carriage return and a comment between them; a comment
inside a style block; and two lines with either ending. -/
theorem output_ignores_layout_reindented :
    (Line.SameLayout (Line.ofSource (utf8 "div\n  p"))
        (Line.ofSource (utf8 "\tdiv \r\n// p\n   p")) ∧
      SameOutput (utf8 "div\n  p") (utf8 "\tdiv \r\n// p\n   p")) ∧
    (Relation.EqvGen LayoutEdit ((utf8 "p\n style\n  x:1").splitOn (octet '\n'))
        ((utf8 "p\n style\n// q\n  x:1").splitOn (octet '\n')) ∧
      SameOutput (utf8 "p\n style\n  x:1") (utf8 "p\n style\n// q\n  x:1")) ∧
    (∀ l ∈ [utf8 "p", utf8 "q"], octet '\n' ∉ l) ∧
      SameOutput (List.intercalate (utf8 "\n") [utf8 "p", utf8 "q"])
        (List.intercalate (utf8 "\r\n") [utf8 "p", utf8 "q"]) := by
  have hlayout : Line.SameLayout (Line.ofSource (utf8 "div\n  p"))
      (Line.ofSource (utf8 "\tdiv \r\n// p\n   p")) := by
    have ha : Line.ofSource (utf8 "div\n  p") = [⟨1, 0, utf8 "div"⟩, ⟨2, 2, utf8 "p"⟩] := by
      decide +kernel
    have hb : Line.ofSource (utf8 "\tdiv \r\n// p\n   p") =
        [⟨1, 1, utf8 "div"⟩, ⟨3, 3, utf8 "p"⟩] := by decide +kernel
    rw [ha, hb]
    exact .of_shapes (f := fun i => i + 1) (fun _ _ h => Nat.succ_lt_succ h) rfl
  have hedit : Relation.EqvGen LayoutEdit ((utf8 "p\n style\n  x:1").splitOn (octet '\n'))
      ((utf8 "p\n style\n// q\n  x:1").splitOn (octet '\n')) :=
    .rel _ _ (.insert [utf8 "p", utf8 " style"] [utf8 "  x:1"]
      (Or.inr ⟨[], utf8 " q", rfl, Bytes.isWhite_nil⟩))
  have hlines : ∀ l ∈ [utf8 "p", utf8 "q"], octet '\n' ∉ l := by decide
  obtain ⟨hsame, hedited, hendings⟩ := output_ignores_layout
  exact ⟨⟨hlayout, hsame _ _ hlayout⟩, ⟨hedit, hedited _ _ hedit⟩, hlines, hendings _ hlines⟩

end SourceTree

end LiveMarkup

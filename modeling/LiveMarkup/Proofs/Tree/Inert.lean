import LiveMarkup.Proofs.Source.Parts
import LiveMarkup.Proofs.Tree.Reformatting
import Mathlib.Data.List.DropRight

/-!
# Lines and marks that have no effect

Blocks are there for the reader of a source: the tree follows the indents alone. So a line of
closing marks can be deleted wherever it stands, and so can a line that is rejected, that is,
reported as not recognized or as a declaration with a bad name; and a tag line can lose its block
mark.

The edits of a source are given on its lines as they are written (`LiveMarkup.InertEdit`). Each of
them is an edit of its rows: a line that is deleted is a row that does nothing to the tree
(`LiveMarkup.Row.isIdle_of_isCloseLine`, `LiveMarkup.SourceTree.isIdle_of_rejected`), and a tag line
without its mark has the same parts (`LiveMarkup.Bytes.exists_shape?_of_mark`).
-/

namespace LiveMarkup

/-! ### Lines of closing marks -/

namespace Style

/-- **Without a colon nothing is declared.** -/
theorem declared_eq_nil {s : Bytes} (h : octet ':' ∉ s) : (parseList s).1 = [] :=
  List.eq_nil_iff_forall_not_mem.mpr fun _ hp => h (eq_of_mem_parseList hp).1

end Style

namespace Bytes

/-- Whether a line has nothing but closing marks and white space. -/
def isCloseLine (raw : Bytes) : Bool :=
  (Utf8.chars raw).all fun c => isBlank? c || c == some '}'

theorem exists_chars_of_isCloseLine {raw : Bytes} (h : raw.isCloseLine) :
    ∃ cs : List Char, raw = Utf8.encodeAll cs ∧ ∀ c ∈ cs, isBlank c ∨ c = '}' := by
  have hchar := List.all_eq_true.mp h
  have hvalid : Utf8.isValid raw := by
    refine List.all_eq_true.mpr fun c hc => ?_
    cases c with
    | none => exact absurd (hchar none hc) (by simp [isBlank?])
    | some c => rfl
  obtain ⟨cs, rfl⟩ := Utf8.isValid_iff.mp hvalid
  refine ⟨cs, rfl, fun c hc => ?_⟩
  have hc' := hchar (some c) (by rw [Utf8.chars_encodeAll]; exact List.mem_map_of_mem hc)
  simpa [isBlank?] using hc'

theorem colon_notMem_of_isCloseLine {raw : Bytes} (h : raw.isCloseLine) : octet ':' ∉ raw := by
  obtain ⟨cs, rfl, hcs⟩ := exists_chars_of_isCloseLine h
  intro hmem
  obtain ⟨c, hc, hcolon⟩ := List.mem_flatMap.mp hmem
  obtain rfl := Utf8.eq_of_octet_mem_encode (by decide) hcolon
  exact absurd (hcs ':' hc) (by decide)

/-- What is left of such a line starts with a mark. -/
theorem head?_trim_of_isCloseLine {raw : Bytes} (h : raw.isCloseLine) (hne : raw.trim ≠ []) :
    raw.trim.head? = some 0x7d := by
  obtain ⟨cs, rfl, hcs⟩ := exists_chars_of_isCloseLine h
  clear h
  induction cs with
  | nil => exact absurd (trim_white isWhite_nil) hne
  | cons c cs ih =>
    rw [List.forall_mem_cons] at hcs
    -- White space at the start is dropped, and the first character that is not is a mark.
    have htrim : trim (Utf8.encodeAll (c :: cs)) =
        if isBlank c then trim (Utf8.encodeAll cs)
        else Utf8.encode c ++ trimEnd (Utf8.encodeAll cs) := by
      rw [Utf8.encodeAll_cons, trim, trimStart_encode]
      split
      · rfl
      · rename_i hc
        rw [trimEnd_encode, Bool.eq_false_iff.mpr hc, Bool.and_false, if_neg (by simp)]
    rw [htrim] at hne ⊢
    split
    · rename_i hc
      rw [if_pos hc] at hne
      exact ih hcs.2 hne
    · rename_i hc
      obtain rfl := hcs.1.resolve_left hc
      rfl

end Bytes

/-- A text that starts with a closing mark is a line of closing marks, or it is not recognized. -/
theorem LineKind.ofText_brace (s : Bytes) :
    ofText (0x7d :: s) = .closing ∨ ofText (0x7d :: s) = .unrecognized := by
  have hstate : isStateLine (0x7d :: s) = false := rfl
  have hstyle : Style.Directive.parse? (0x7d :: s) = none := rfl
  have htag : TagLine.parse? (0x7d :: s) = none := rfl
  rw [ofText, hstate, hstyle, htag]
  by_cases hclosing : isClosing (0x7d :: s)
  · exact Or.inl (if_pos hclosing)
  · rw [if_neg hclosing]
    exact Or.inr rfl

/-- **A line of closing marks does nothing**, inside a style block and outside. -/
theorem Row.isIdle_of_isCloseLine {x : Row} {raw : Bytes} (h : raw.isCloseLine)
    (hx : x.line.text = raw.trim) (hne : raw.trim ≠ []) : x.isIdle := by
  rw [isIdle]
  cases hin : x.inStyle with
  | true =>
    -- Inside a block it would have to declare something.
    have hcolon : octet ':' ∉ x.line.text := fun hmem =>
      Bytes.colon_notMem_of_isCloseLine h (Bytes.mem_of_mem_trim (hx ▸ hmem))
    have hnone : x.kind? = none := by rw [kind?, hin, if_pos rfl]
    rw [declarations, hnone]
    dsimp only
    rw [Style.declared_eq_nil hcolon, ite_self]
    rfl
  | false =>
    have hsome : x.kind? = some (LineKind.ofText x.line.text) := by
      rw [kind?, hin, if_neg (by simp)]
    have hhead := Bytes.head?_trim_of_isCloseLine h hne
    obtain ⟨s, hs⟩ := List.head?_eq_some_iff.mp hhead
    rw [hsome, hx, hs]
    rcases LineKind.ofText_brace s with hk | hk <;> rw [hk]

/-! ### Rejected lines -/

/-- Whether a problem is that a line is rejected as a whole. -/
def Problem.isRejection : Problem → Bool
  | .unrecognizedLine _ | .stateName _ => true
  | _ => false

namespace Reading

theorem isRejection_of_mem_voidNotice {s : Scopes} {position : Position} {d : Diagnostic}
    (h : d ∈ s.voidNotice position) : d.problem.isRejection = false := by
  rw [Scopes.voidNotice] at h
  split at h
  · rw [List.mem_ite_nil_right] at h
    obtain rfl := List.mem_singleton.mp h.2
    rfl
  · exact absurd h (by simp)

theorem isRejection_of_mem_blockNotices {r : Reading} {l : Line} {d : Diagnostic}
    (h : d ∈ r.blockNotices l) : d.problem.isRejection = false := by
  rw [blockNotices, List.mem_ite_nil_left] at h
  obtain rfl := List.mem_singleton.mp h.2
  rfl

theorem isRejection_of_mem_tagNotices {l : Line} {t : TagLine} {d : Diagnostic}
    (h : d ∈ tagNotices l t) : d.problem.isRejection = false := by
  simp only [tagNotices, List.mem_append, List.mem_map, List.mem_ite_nil_right,
    List.mem_singleton] at h
  rcases h with ((⟨-, rfl⟩ | ⟨p, hp, rfl⟩) | ⟨-, rfl⟩) | ⟨-, rfl⟩
  · rfl
  · obtain ⟨list, -, ⟨hentry, -⟩⟩ := elementOf_problems l t p hp
    cases p <;> simp_all [Problem.isRejection, Problem.isEntry]
  · rfl
  · rfl

/-- **A row that is reported as rejected is one**, and is reported at its position. -/
theorem isIdle_of_mem_notices {r : Reading} {x : Row} {d : Diagnostic} (h : d ∈ r.notices x)
    (hd : d.problem.isRejection) : x.isIdle ∧ d.position = x.line.position := by
  have hnot (hfalse : d.problem.isRejection = false) : False := by
    rw [hfalse] at hd
    exact absurd hd (by simp)
  rw [notices] at h
  rw [Row.isIdle]
  cases hk : x.kind? with
  | none =>
    simp only [hk] at h
    split at h
    · exact (hnot (isRejection_of_mem_blockNotices h)).elim
    · obtain ⟨b, -, rfl⟩ := List.mem_map.mp h
      exact (hnot rfl).elim
  | some k =>
    cases k with
    | closing =>
      simp only [hk] at h
      exact (hnot (isRejection_of_mem_blockNotices h)).elim
    | unrecognized | misnamed name =>
      simp only [hk, List.mem_singleton] at h
      exact ⟨rfl, h ▸ rfl⟩
    | state e =>
      simp only [hk, List.mem_ite_nil_right, List.mem_singleton] at h
      exact (hnot (h.2 ▸ rfl)).elim
    | style e =>
      simp only [hk, List.mem_append, List.mem_ite_nil_right, List.mem_singleton,
        List.mem_map] at h
      rcases h with ⟨-, rfl⟩ | ⟨b, -, rfl⟩ <;> exact (hnot rfl).elim
    | text t =>
      simp only [hk] at h
      exact (hnot (isRejection_of_mem_voidNotice h)).elim
    | tag t =>
      simp only [hk, List.mem_append] at h
      rcases h with h | h
      · exact (hnot (isRejection_of_mem_tagNotices h)).elim
      · exact (hnot (isRejection_of_mem_voidNotice h)).elim

theorem map_line_rows (r : Reading) (ls : List Line) : (r.rows ls).map Row.line = ls := by
  induction ls generalizing r with
  | nil => rfl
  | cons l ls ih => rw [rows, List.map_cons, ih]; rfl

end Reading

namespace SourceTree

/-- **A rejected line does nothing.** -/
theorem isIdle_of_rejected {src : Bytes} {d : Diagnostic} (h : d ∈ (ofSource src).diagnostics)
    (hd : d.problem.isRejection) :
    ∃ y ∈ Layout.ofSource src, y.isIdle ∧ d.position.line = y.line.number := by
  have hreference : d.problem.isReference = false := by
    cases hp : d.problem <;> simp_all [Problem.isRejection, Problem.isReference]
  obtain ⟨before, y, after, hrows, hnotice⟩ := (mem_diagnostics_ofSource hreference).mp h
  obtain ⟨hidle, hposition⟩ := Reading.isIdle_of_mem_notices hnotice hd
  exact ⟨y, by simp [hrows], hidle, by rw [hposition]; rfl⟩

end SourceTree

/-! ### Block marks -/

/-- A block mark as it is written: a brace, or a pair of them with nothing but a gap between. -/
def IsBlockMark (mark : Bytes) : Prop :=
  mark = [0x7b] ∨ ∃ gap : Bytes, gap.all isGapOctet ∧ mark = 0x7b :: (gap ++ [0x7d])

namespace IsBlockMark

variable {mark : Bytes} (h : IsBlockMark mark)

include h

theorem head : ∃ s : Bytes, mark = 0x7b :: s := by
  rcases h with rfl | ⟨gap, -, rfl⟩
  · exact ⟨[], rfl⟩
  · exact ⟨gap ++ [0x7d], rfl⟩

theorem isContinuation_head? : mark.head?.any Utf8.isContinuation = false := by
  obtain ⟨s, rfl⟩ := h.head
  rfl

theorem last : ∃ (s : Bytes) (e : UInt8), mark = s ++ [e] ∧ isSolid e := by
  rcases h with rfl | ⟨gap, -, rfl⟩
  · exact ⟨[], 0x7b, rfl, by decide⟩
  · exact ⟨0x7b :: gap, 0x7d, rfl, by decide⟩

theorem markTail {gap : Bytes} (hgap : ∀ b ∈ gap, isGapOctet b) : MarkTail (gap ++ mark) where
  octets b hb := by
    rcases List.mem_append.mp hb with hb | hb
    · exact mem_markOctets_of_isGapOctet (hgap b hb)
    · rcases h with rfl | ⟨inner, hinner, rfl⟩
      · obtain rfl := List.mem_singleton.mp hb
        decide
      · rcases List.mem_cons.mp hb with rfl | hb
        · decide
        · rcases List.mem_append.mp hb with hb | hb
          · exact mem_markOctets_of_isGapOctet (List.all_eq_true.mp hinner b hb)
          · obtain rfl := List.mem_singleton.mp hb
            decide
  brace := by
    obtain ⟨s, rfl⟩ := h.head
    exact List.mem_append_right gap List.mem_cons_self

end IsBlockMark

namespace Bytes

theorem isWhite_gap {gap : Bytes} (h : ∀ b ∈ gap, isGapOctet b) : gap.isWhite := by
  have hone {b : UInt8} (hb : isGapOctet b) :
      isBlank (Char.ofNat b.toNat) ∧ Utf8.encode (Char.ofNat b.toNat) = [b] := by
    simp only [isGapOctet, Bool.or_eq_true, beq_iff_eq] at hb
    rcases hb with (((rfl | rfl) | rfl) | rfl) | rfl <;> decide
  refine isWhite_iff.mpr ⟨gap.map fun b => Char.ofNat b.toNat, ?_, ?_⟩
  · induction gap with
    | nil => rfl
    | cons b gap ih =>
      rw [List.forall_mem_cons] at h
      rw [List.map_cons, Utf8.encodeAll_cons, (hone h.1).2, ← ih h.2, List.singleton_append]
  · intro c hc
    obtain ⟨b, hb, rfl⟩ := List.mem_map.mp hc
    exact (hone (h b hb)).1

theorem trimEnd_of_getLast? {s : Bytes} {e : UInt8} (h : s.getLast? = some e) (he : isSolid e) :
    trimEnd s = s := by
  rw [← List.dropLast_append_getLast? e h]
  exact trimEnd_concat_solid s.dropLast he

/-- A text is split in front of the gap at its end. -/
theorem exists_gap (s : Bytes) : ∃ core gap : Bytes, s = core ++ gap ∧
    (∀ e, core.getLast? = some e → isGapOctet e = false) ∧ ∀ b ∈ gap, isGapOctet b := by
  refine ⟨s.rdropWhile isGapOctet, s.rtakeWhile isGapOctet,
    List.rdropWhile_append_rtakeWhile.symm, fun e he => ?_, fun b hb => List.mem_rtakeWhile_imp hb⟩
  have hne : s.rdropWhile isGapOctet ≠ [] := List.ne_nil_of_mem (List.mem_of_getLast? he)
  have hlast := List.rdropWhile_last_not isGapOctet s hne
  rw [List.getLast?_eq_some_getLast hne] at he
  rw [Option.some.inj he] at hlast
  simpa using hlast

/-- In front of a block mark there is something, if the line is a tag line. -/
theorem trim_append_mark {before mark : Bytes} (hmark : IsBlockMark mark) {t : TagLine}
    (h : LineKind.ofText (trim (before ++ mark)) = .tag t) :
    trimStart before ≠ [] ∧ trim (before ++ mark) = trimStart before ++ mark := by
  obtain ⟨s, e, hlast, he⟩ := hmark.last
  obtain ⟨u, hhead⟩ := hmark.head
  have htrimEnd (p : Bytes) : trimEnd (p ++ mark) = p ++ mark := by
    rw [hlast, ← List.append_assoc, trimEnd_concat_solid (p ++ s) he]
  have hstart := trimStart_append hmark.isContinuation_head? before
  by_cases hnil : trimStart before = []
  · -- The mark alone is no tag line.
    have hmarkStart : trimStart mark = mark := by
      have h := trimStart_encode '{' u
      rw [if_neg (by decide)] at h
      rw [hhead]
      exact h
    have htrim : trim (before ++ mark) = mark := by
      rw [trim, hstart, hnil, List.isEmpty_nil, if_pos rfl, hmarkStart]
      exact htrimEnd []
    have hnone : TagLine.parse? (0x7b :: u) = none := rfl
    rw [htrim, hhead] at h
    exact absurd (LineKind.tests_of_ofText h).2 (by simp [hnone])
  · refine ⟨hnil, ?_⟩
    rw [trim, hstart, if_neg (by simpa using hnil), htrimEnd]

/-- **A tag line without its block mark** has the same indent and the same parts. -/
theorem exists_shape?_of_mark {before mark trail : Bytes} (hmark : IsBlockMark mark)
    (htrail : trail.isWhite) {i : Nat} {text : Bytes}
    (hshape : shape? (before ++ mark ++ trail) = some (i, text)) {t : TagLine}
    (htag : LineKind.ofText text = .tag t) (hclosed : t.attributes.all AttributeList.closed) :
    ∃ text' : Bytes, shape? (before ++ trail) = some (i, text') ∧
      LineKind.ofText text' = .tag { t with block := false } := by
  rw [shape?_append_white _ htrail, shape?] at hshape
  rw [shape?_append_white _ htrail]
  split at hshape
  swap
  · exact absurd hshape (by simp)
  rename_i hsignificant
  obtain ⟨rfl, rfl⟩ : indentWidth (before ++ mark) = i ∧ trim (before ++ mark) = text := by
    simpa using hshape
  obtain ⟨hne, htrim⟩ := trim_append_mark hmark htag
  -- The gap in front of the mark goes with it.
  obtain ⟨core, gap, hcore, hlast, hgap⟩ := exists_gap (trimStart before)
  rw [htrim, hcore, List.append_assoc] at htag hsignificant
  obtain ⟨hkind, p, hp, hsolid⟩ := LineKind.ofText_of_append_mark (hmark.markTail hgap) htag hclosed
  obtain rfl : core = p := by simpa using hp
  have hcoreNe : core ≠ [] := by
    have hnone : TagLine.parse? [] = none := rfl
    rintro rfl
    exact absurd (LineKind.tests_of_ofText hkind).2 (by simp [hnone])
  have htrimCore : trim before = core := by
    obtain ⟨e, he⟩ : ∃ e, core.getLast? = some e := ⟨_, List.getLast?_eq_some_getLast hcoreNe⟩
    have hsolid' := (hsolid e he).resolve_right (by simp [hlast e he])
    rw [trim, hcore, trimEnd_append_white (isWhite_gap hgap), trimEnd_of_getLast? he hsolid']
  have hcomment : (after? Line.commentMark core).isNone := by
    rw [Line.isSignificant, Bool.and_eq_true] at hsignificant
    cases hafter : after? Line.commentMark core with
    | none => rfl
    | some r => exact absurd hsignificant.2 (by simp [after?_append hafter])
  refine ⟨core, ?_, hkind⟩
  rw [shape?, htrimCore, Line.isSignificant, hcomment, Bool.and_true,
    if_pos (by simpa using hcoreNe), indentWidth_append hmark.isContinuation_head? hne]

end Bytes

/-! ### Edits of a source -/

namespace SourceTree

/-- A line can be deleted from a source: it has nothing but closing marks, or it is reported as
rejected. -/
def IsInert (src : Bytes) (number : Nat) (raw : Bytes) : Prop :=
  raw.isCloseLine ∨
    ∃ d ∈ (ofSource src).diagnostics, d.position.line = number ∧ d.problem.isRejection

/-- A line is a tag line of a source, and the other text is that line without its block mark. A
brace in an attribute list that is left open belongs to the list and is no mark. -/
def Unmarked (src : Bytes) (number : Nat) (raw raw' : Bytes) : Prop :=
  ∃ before mark trail : Bytes, raw = before ++ mark ++ trail ∧ raw' = before ++ trail ∧
    IsBlockMark mark ∧ trail.isWhite ∧
    ∃ y ∈ Layout.ofSource src, y.line.number = number ∧
      ∃ t : TagLine, y.kind? = some (.tag t) ∧ t.attributes.all AttributeList.closed

end SourceTree

/-- **An edit that has no effect** on consecutive lines of a source, of which the first has the
given number: each of them is kept, deleted if it is inert, or loses its block mark. -/
inductive InertEdit (src : Bytes) : Nat → List Bytes → List Bytes → Prop
  | nil (number : Nat) : InertEdit src number [] []
  | keep {number : Nat} (raw : Bytes) {raws raws' : List Bytes}
    (h : InertEdit src (number + 1) raws raws') : InertEdit src number (raw :: raws) (raw :: raws')
  | delete {number : Nat} {raw : Bytes} (hraw : SourceTree.IsInert src number raw)
    {raws raws' : List Bytes} (h : InertEdit src (number + 1) raws raws') :
    InertEdit src number (raw :: raws) raws'
  | unmark {number : Nat} {raw raw' : Bytes} (hraw : SourceTree.Unmarked src number raw raw')
    {raws raws' : List Bytes} (h : InertEdit src (number + 1) raws raws') :
    InertEdit src number (raw :: raws) (raw' :: raws')

/-- The rows of a source from the line with the given number on are those of some lines, read on
from a reading. -/
def Reading.Resumes (r : Reading) (src : Bytes) (number : Nat) (raws : List Bytes) : Prop :=
  ∃ before : List Row, Layout.ofSource src = before ++ r.rows (Line.ofRaws number raws) ∧
    ∀ y ∈ before, y.line.number < number

namespace Reading.Resumes

variable {r : Reading} {src raw : Bytes} {number : Nat} {raws : List Bytes}

theorem start (src : Bytes) : Resumes {} src 1 (src.splitOn (octet '\n')) :=
  ⟨[], by rw [rows_eq_layout]; rfl, by simp⟩

theorem skip (h : r.Resumes src number (raw :: raws)) (hraw : Line.ofRaw? number raw = none) :
    r.Resumes src (number + 1) raws := by
  obtain ⟨before, hrows, hbefore⟩ := h
  rw [Line.ofRaws, hraw] at hrows
  exact ⟨before, hrows, fun y hy => Nat.lt_succ_of_lt (hbefore y hy)⟩

theorem next (h : r.Resumes src number (raw :: raws)) {l : Line}
    (hraw : Line.ofRaw? number raw = some l) : (r.step l).Resumes src (number + 1) raws := by
  obtain ⟨before, hrows, hbefore⟩ := h
  rw [Line.ofRaws, hraw] at hrows
  refine ⟨before ++ [r.row l], by rw [hrows, List.append_assoc]; rfl, fun y hy => ?_⟩
  rcases List.mem_append.mp hy with hy | hy
  · exact Nat.lt_succ_of_lt (hbefore y hy)
  · obtain rfl := List.mem_singleton.mp hy
    exact Nat.lt_succ_of_le (Nat.le_of_eq (Line.number_of_ofRaw? hraw))

/-- **The row with the number of the next line** is what that line is read as. -/
theorem exists_row (h : r.Resumes src number (raw :: raws)) {y : Row} (hy : y ∈ Layout.ofSource src)
    (hnumber : y.line.number = number) : ∃ l, Line.ofRaw? number raw = some l ∧ y = r.row l := by
  have hlater {r' : Reading} : y ∉ r'.rows (Line.ofRaws (number + 1) raws) := by
    intro hmem
    have hline := List.mem_map_of_mem (f := Row.line) hmem
    rw [map_line_rows] at hline
    exact absurd (Line.le_number_of_mem_ofRaws hline) (by omega)
  obtain ⟨before, hrows, hbefore⟩ := h
  rw [hrows, Line.ofRaws, List.mem_append] at hy
  have hy' := hy.resolve_left fun hmem => absurd (hbefore y hmem) (by omega)
  cases hraw : Line.ofRaw? number raw with
  | none =>
    rw [hraw] at hy'
    exact absurd hy' hlater
  | some l =>
    rw [hraw] at hy'
    exact ⟨l, rfl, (List.mem_cons.mp hy').resolve_right hlater⟩

end Reading.Resumes

namespace SourceTree

variable {r : Reading} {src raw raw' : Bytes} {number : Nat} {raws : List Bytes}

/-- **An inert line is read as a row that does nothing.** -/
theorem IsInert.isIdle (hraw : IsInert src number raw) (hr : r.Resumes src number (raw :: raws))
    {l : Line} (hl : Line.ofRaw? number raw = some l) : (r.row l).isIdle := by
  rcases hraw with hclose | ⟨d, hd, hline, hreject⟩
  · rw [Line.ofRaw?_eq_shape?, Bytes.shape?] at hl
    split at hl
    · rename_i hsignificant
      obtain rfl := Option.some.inj hl
      exact Row.isIdle_of_isCloseLine hclose rfl (Bytes.ne_nil_of_isSignificant hsignificant)
    · exact absurd hl (by simp)
  · obtain ⟨y, hy, hidle, hnumber⟩ := isIdle_of_rejected hd hreject
    obtain ⟨l', hl', rfl⟩ := hr.exists_row hy (by exact_mod_cast hnumber.symm.trans hline)
    rw [hl] at hl'
    obtain rfl := Option.some.inj hl'
    exact hidle

/-- **A line without its block mark** is read as the same line, wherever it stands. -/
theorem Unmarked.exists_line (hraw : Unmarked src number raw raw')
    (hr : r.Resumes src number (raw :: raws)) (m : Nat) :
    ∃ (l l' : Line) (t : TagLine), Line.ofRaw? number raw = some l ∧
      Line.ofRaw? m raw' = some l' ∧ l.indent = l'.indent ∧ (r.row l).kind? = some (.tag t) ∧
      LineKind.ofText l'.text = .tag { t with block := false } := by
  obtain ⟨before, mark, trail, rfl, rfl, hmark, htrail, y, hy, hnumber, t, htag, hclosed⟩ := hraw
  obtain ⟨l, hl, rfl⟩ := hr.exists_row hy hnumber
  have hin : r.inStyle l = false := by
    cases hin : r.inStyle l with
    | true => exact absurd htag (by simp [Reading.kind?_row_of_inStyle r l hin])
    | false => rfl
  have htext : LineKind.ofText l.text = .tag t :=
    Option.some.inj ((Reading.kind?_row_of_not_inStyle r l hin).symm.trans htag)
  obtain ⟨⟨i, text⟩, hshape, rfl⟩ :=
    Option.map_eq_some_iff.mp ((Line.ofRaw?_eq_shape? number _).symm.trans hl)
  obtain ⟨text', hshape', hkind⟩ := Bytes.exists_shape?_of_mark hmark htrail hshape htext hclosed
  exact ⟨_, ⟨m, i, text'⟩, t, hl, by rw [Line.ofRaw?_eq_shape?, hshape']; rfl, rfl, htag, hkind⟩

end SourceTree

namespace InertEdit

variable {src : Bytes} {number : Nat} {raws raws' : List Bytes}

/-- **An edit that has no effect is an edit of the rows.** The lines after it are numbered from
anywhere, since deletions move them up. -/
theorem edited (h : InertEdit src number raws raws') {r : Reading} (hr : r.Resumes src number raws)
    (m : Nat) : Edited Eq (r.rows (Line.ofRaws number raws)) (Line.ofRaws m raws') := by
  induction h generalizing r m with
  | nil number => exact .nil
  | @keep number raw raws raws' h ih =>
    have hm := Line.ofRaw?_eq_shape? m raw
    have hnumber := Line.ofRaw?_eq_shape? number raw
    rw [Line.ofRaws, Line.ofRaws]
    cases hs : raw.shape? with
    | none =>
      rw [hs, Option.map_none] at hm hnumber
      rw [hm, hnumber]
      exact ih (hr.skip hnumber) (m + 1)
    | some y =>
      rw [hs, Option.map_some] at hm hnumber
      rw [hm, hnumber]
      exact .keep rfl rfl (ih (hr.next hnumber) (m + 1))
  | @delete number raw hraw raws raws' h ih =>
    rw [Line.ofRaws]
    cases hl : Line.ofRaw? number raw with
    | none => exact ih (hr.skip hl) m
    | some l => exact .drop (hraw.isIdle hr hl) (ih (hr.next hl) m)
  | @unmark number raw raw' hraw raws raws' h ih =>
    obtain ⟨l, l', t, hl, hl', hindent, htag, hkind⟩ := hraw.exists_line hr m
    rw [Line.ofRaws, Line.ofRaws, hl, hl']
    exact .unmark hindent htag hkind (ih (hr.next hl) (m + 1))

/-- An edit adds no octets. -/
theorem notMem (h : InertEdit src number raws raws') {b : UInt8} (hb : ∀ raw ∈ raws, b ∉ raw) :
    ∀ raw ∈ raws', b ∉ raw := by
  induction h with
  | nil number => exact hb
  | keep raw h ih =>
    rw [List.forall_mem_cons] at hb ⊢
    exact ⟨hb.1, ih hb.2⟩
  | delete hraw h ih => exact ih (List.forall_mem_cons.mp hb).2
  | unmark hraw h ih =>
    obtain ⟨before, mark, trail, rfl, rfl, -⟩ := hraw
    rw [List.forall_mem_cons] at hb ⊢
    refine ⟨fun hmem => hb.1 ?_, ih hb.2⟩
    simp only [List.mem_append] at hmem ⊢
    exact hmem.imp_left Or.inl

end InertEdit

/-- **Closing marks, rejected lines and block marks have no effect.** Any number of lines of a
source can be deleted that have nothing but closing marks, inside style blocks and outside, or are
reported as not recognized or as declarations with bad names, and any number of tag lines can lose
their block marks: the document and the outline stay as they are. -/
theorem SourceTree.output_ignores_inert_lines {src : Bytes} {raws : List Bytes}
    (h : InertEdit src 1 (src.splitOn (octet '\n')) raws) :
    SameOutput src (List.intercalate (utf8 "\n") raws) := by
  have horder : OrderAlike Eq := by
    rintro i i' j j' rfl rfl
    exact Iff.rfl
  have hfeeds : ∀ raw ∈ raws, octet '\n' ∉ raw :=
    h.notMem fun raw hraw => Bytes.notMem_of_mem_splitOn hraw
  have hlines := Line.ofSource_intercalate hfeeds (List.mem_cons_self (a := []))
  rw [List.append_nil] at hlines
  refine sameOutput_of_edited horder ?_
  rw [hlines, Layout.ofSource, ← Reading.rows_eq_layout]
  exact h.edited (.start src) 1

/-- A tag line loses its mark, and a closing mark inside its style block, a line that is not
recognized and a closing mark after it are deleted. -/
theorem SourceTree.output_ignores_inert_lines_style :
    InertEdit (utf8 "p \x7b\n style \x7b\n  \x7d\n!\n\x7d") 1
      ((utf8 "p \x7b\n style \x7b\n  \x7d\n!\n\x7d").splitOn (octet '\n'))
      [utf8 "p ", utf8 " style \x7b"] ∧
    SameOutput (utf8 "p \x7b\n style \x7b\n  \x7d\n!\n\x7d")
      (List.intercalate (utf8 "\n") [utf8 "p ", utf8 " style \x7b"]) := by
  have hreported : ∃ d ∈ (ofSource (utf8 "p \x7b\n style \x7b\n  \x7d\n!\n\x7d")).diagnostics,
      d.position.line = (4 : Nat) ∧ d.problem.isRejection := by
    refine ⟨⟨⟨4, 1⟩, .unrecognizedLine (utf8 "!")⟩, ?_, rfl, rfl⟩
    have hall : (ofSource (utf8 "p \x7b\n style \x7b\n  \x7d\n!\n\x7d")).diagnostics =
        [⟨⟨4, 1⟩, .unrecognizedLine (utf8 "!")⟩] := by decide +kernel
    rw [hall]
    exact List.mem_cons_self
  have hmarked : Unmarked (utf8 "p \x7b\n style \x7b\n  \x7d\n!\n\x7d") 1 (utf8 "p \x7b")
      (utf8 "p ") := by
    have hfirst : (Layout.ofSource (utf8 "p \x7b\n style \x7b\n  \x7d\n!\n\x7d")).head? =
        some ⟨⟨1, 0, utf8 "p \x7b"⟩, false⟩ := by decide +kernel
    exact ⟨utf8 "p ", [0x7b], [], rfl, rfl, Or.inl rfl, Bytes.isWhite_nil, _,
      List.mem_of_head? hfirst, rfl, ⟨utf8 "p", [], none, none, none, true⟩, by decide +kernel,
      by decide +kernel⟩
  have hclose (raw : Bytes) (h : raw.isCloseLine) (number : Nat) :
      IsInert (utf8 "p \x7b\n style \x7b\n  \x7d\n!\n\x7d") number raw := Or.inl h
  have hedit : InertEdit (utf8 "p \x7b\n style \x7b\n  \x7d\n!\n\x7d") 1
      ((utf8 "p \x7b\n style \x7b\n  \x7d\n!\n\x7d").splitOn (octet '\n'))
      [utf8 "p ", utf8 " style \x7b"] :=
    .unmark hmarked (.keep _ (.delete (hclose (utf8 "  \x7d") (by decide +kernel) 3)
      (.delete (Or.inr hreported) (.delete (hclose (utf8 "\x7d") (by decide +kernel) 5) (.nil 6)))))
  exact ⟨hedit, output_ignores_inert_lines hedit⟩

end LiveMarkup

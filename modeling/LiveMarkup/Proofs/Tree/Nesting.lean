import LiveMarkup.Proofs.Tree.Runs
import LiveMarkup.Proofs.Tree.Scopes
import Mathlib.Data.List.Basic
import Mathlib.Data.Option.Basic
import Mathlib.Logic.Pairwise

/-!
# Nesting follows the indents

Reading a source builds the forest that its layout describes. While the lines are read, the frames
of the reading stand for the rows that are open (`LiveMarkup.Layout.Stands`), and the forest so far
has the entries of the rows so far; `LiveMarkup.Layout.Tracks` is that invariant, and
`LiveMarkup.Layout.Tracks.after_row` says that every row preserves it.

* `LiveMarkup.Layout.parentedAll_nodes`: the nodes of a source are those of its tag lines and text
  lines, each below the element of the last tag line that reaches it, and each element with exactly
  the style declarations of the rows whose parent it is;
* `LiveMarkup.Layout.orphanStyle_mem_diagnostics_iff`: a style directive is reported to have no
  element exactly when no tag line reaches it.
-/

namespace LiveMarkup

namespace Layout

/-! ### Frames and rows -/

/-- **Frames stand for rows**: they have the indents of the rows, and the elements that the rows
have so far. -/
def Stands (rows os : List Row) (s : Scopes) : Prop :=
  s.heads.map (fun h => (h.1, some h.2)) = os.map fun a => (a.indent, element? rows a)

theorem Stands.top? {rows os : List Row} {s : Scopes} (h : Stands rows os s) :
    s.top? = os.head?.bind (element? rows) := by
  rw [Scopes.top?_eq_heads]
  rw [Stands] at h
  cases hs : s.heads with
  | nil =>
    obtain rfl : os = [] := by simpa [hs] using h.symm
    rfl
  | cons f fs =>
    cases os with
    | nil => exact absurd h (by simp [hs])
    | cons a as =>
      have hhead : (f.1, some f.2) = (a.indent, element? rows a) := by
        simpa [hs] using congrArg List.head? h
      exact congrArg Prod.snd hhead

/-- Closing frames is closing rows. -/
theorem Stands.close {rows os : List Row} {s : Scopes} (h : Stands rows os s) (indent : Nat) :
    Stands rows (os.dropWhile fun a => indent ≤ a.indent) (s.close indent) := by
  rw [Stands] at h ⊢
  rw [Scopes.heads_close]
  calc (s.heads.dropWhile fun h => indent ≤ h.1).map (fun h => (h.1, some h.2))
      = (s.heads.map fun h => (h.1, some h.2)).dropWhile (fun h => indent ≤ h.1) := by
        rw [List.dropWhile_map]
        rfl
    _ = (os.map fun a => (a.indent, element? rows a)).dropWhile (fun h => indent ≤ h.1) := by rw [h]
    _ = (os.dropWhile fun a => indent ≤ a.indent).map (fun a => (a.indent, element? rows a)) := by
        rw [List.dropWhile_map]
        rfl

/-- The parent of a line is the innermost frame that is left when the line has closed the others. -/
theorem Stands.top?_close {rows : List Row} {s : Scopes} (h : Stands rows (openRows rows) s)
    (indent : Nat) : (s.close indent).top? = (parent? indent rows).bind (element? rows) := by
  rw [(h.close indent).top?, parent?_eq_head?]

/-- Frames stand for rows through every row that changes no element. -/
theorem Stands.append {rows os : List Row} {s : Scopes} (h : Stands rows os s) {x : Row}
    (hx : x.declarations = []) : Stands (rows ++ [x]) os s := by
  rwa [Stands, element?_of_no_declarations rows hx]

section Restyle

variable {rows os : List Row} {x : Row} {s : Scopes}
  (hnodup : (rows.map fun y => y.line.position).Nodup) (hos : os.Pairwise fun a b => a ≠ b)
  (hmem : ∀ a ∈ os, a ∈ rows) (hhead : parent? x.indent rows = os.head?) (h : Stands rows os s)

include hnodup hos hmem hhead h

/-- Frames stand for rows through a row that changes the innermost element. -/
theorem Stands.restyle : Stands (rows ++ [x]) os (s.modifyTop (·.addStyle x.declarations)) := by
  rw [Stands, Scopes.heads_modifyTop]
  rw [Stands] at h
  cases os with
  | nil =>
    have hs : s.heads = [] := by simpa using h
    simp [hs]
  | cons a as =>
    rw [List.head?_cons] at hhead
    cases hs : s.heads with
    | nil => exact absurd h (by simp [hs])
    | cons f fs =>
      rw [hs, List.map_cons, List.map_cons, List.cons.injEq, Prod.mk.injEq] at h
      obtain ⟨⟨hindent, helement⟩, hrest⟩ := h
      obtain ⟨hne, -⟩ := List.pairwise_cons.mp hos
      have hposition : f.2.position = a.line.position := position_of_element? helement.symm
      rw [List.modifyHead_cons, List.map_cons, List.map_cons, hrest]
      congr 1
      · rw [element?_of_parent? hnodup hhead (hmem a List.mem_cons_self), ← helement,
          Option.map_some, Element.changeAt, if_pos hposition, hindent]
      · -- The outer elements have other positions, so the change passes them by.
        refine List.map_congr_left fun b hb => ?_
        have hb' : b ∈ rows := hmem b (List.mem_cons_of_mem a hb)
        rw [element?_of_parent? hnodup hhead hb']
        cases hbe : element? rows b with
        | none => rfl
        | some e =>
          have hpos : e.position ≠ a.line.position := by
            rw [position_of_element? hbe]
            intro heq
            exact hne b hb
              (eq_of_position_eq hnodup (hmem a List.mem_cons_self) hb' heq).symm
          rw [Option.map_some, Element.changeAt_of_ne _ hpos]

omit hos hmem in
/-- The entries keep up with a row that changes the innermost element. -/
theorem Stands.entries_restyle (hentries : s.entries = entries rows)
    (hitem : item? (rows ++ [x]) x = none) :
    (s.modifyTop (·.addStyle x.declarations)).entries = entries (rows ++ [x]) := by
  have htop := h.top?
  rw [← hhead] at htop
  cases hparent : parent? x.indent rows with
  | none =>
    rw [hparent] at htop
    rw [Scopes.modifyTop_of_top?_eq_none _ htop, hentries, entries_of_orphan hparent hitem]
  | some a =>
    rw [hparent, Option.bind_some] at htop
    obtain ⟨t, ht⟩ := Option.isSome_iff_exists.mp (mem_of_parent? hparent).2
    obtain ⟨e, he⟩ : ∃ e, element? rows a = some e := ⟨_, by rw [element?, ht]; rfl⟩
    have hpositions : (s.entries.map fun y => y.2.position).Nodup := by
      rw [hentries]
      exact hnodup.sublist (positions_entries_sublist rows)
    rw [Scopes.entries_modifyTop _ (htop.trans he) hpositions, hentries,
      entries_of_parent? hnodup hparent hitem, position_of_element? he]

end Restyle

/-! ### The open rows after a row -/

theorem ne_of_mem_openRows (rows : List Row) : (openRows rows).Pairwise fun a b => a ≠ b := by
  refine (openRows_pairwise rows).imp fun {a b} hlt heq => ?_
  rw [heq] at hlt
  exact Nat.lt_irrefl _ hlt

/-- The rows that are left when a row has closed the others are those that are open after it, if it
is no tag line. -/
theorem openRows_of_closesScopes (rows : List Row) {x : Row} (hcloses : x.closesScopes)
    (htag : ¬x.tag?.isSome) :
    openRows (rows ++ [x]) = (openRows rows).dropWhile fun a => x.indent ≤ a.indent := by
  rw [openRows_append_singleton, if_neg htag, List.nil_append, ← filter_openRows]
  simp [hcloses]

/-- A declaration inside a style block finds nothing to close. -/
theorem openRows_of_inStyle {rows : List Row} {x : Row} (hlaid : IsLaidOut (rows ++ [x]))
    (hin : x.inStyle) (hcloses : x.closesScopes) : openRows (rows ++ [x]) = openRows rows := by
  obtain ⟨hrows, hx⟩ := isLaidOut_append_singleton.mp hlaid
  rw [hx] at hin
  cases hm : openStyle rows with
  | none => exact absurd hin (by simp [hm])
  | some m =>
    have hlt : m < x.indent := by simpa [hm] using hin
    rw [openRows_append_singleton, if_neg (Row.not_tag?_of_inStyle (hx ▸ hin)), List.nil_append]
    refine List.filter_eq_self.mpr fun a ha => ?_
    have := indent_lt_of_openStyle hrows hm a ha
    simpa [hcloses] using Nat.lt_trans this hlt

/-- A row that changes the style of the innermost element, once it has closed the others. -/
theorem Stands.after_style {rows : List Row} {x : Row} {s : Scopes}
    (hframes : Stands rows (openRows (rows ++ [x])) s)
    (hentries : s.entries = entries rows)
    (hnodup : (rows.map fun y => y.line.position).Nodup)
    (hcloses : x.closesScopes) (htag : x.tag? = none) (htext : x.text? = none) :
    Stands (rows ++ [x]) (openRows (rows ++ [x])) (s.modifyTop (·.addStyle x.declarations)) ∧
      (s.modifyTop (·.addStyle x.declarations)).entries = entries (rows ++ [x]) := by
  have hopen := openRows_of_closesScopes rows hcloses (by simp [htag])
  have hhead : parent? x.indent rows = (openRows (rows ++ [x])).head? := by
    rw [hopen, parent?_eq_head?]
  have hmem : ∀ a ∈ openRows (rows ++ [x]), a ∈ rows := by
    intro a ha
    rw [hopen] at ha
    exact (mem_of_mem_openRows ((List.dropWhile_suffix _).mem ha)).1
  exact ⟨hframes.restyle hnodup (ne_of_mem_openRows _) hmem hhead,
    hframes.entries_restyle hnodup hhead hentries (item?_eq_none htag htext _)⟩

/-! ### The invariant -/

/-- **A reading tracks rows**: its frames stand for the rows that are open, and its forest has the
nodes of the rows. -/
structure Tracks (rows : List Row) (r : Reading) : Prop where
  frames : Stands rows (openRows rows) r.scopes
  entries : r.scopes.entries = entries rows

theorem tracks_nil : Tracks [] {} where
  frames := rfl
  entries := Scopes.entries_nil []

section Step

variable {rows : List Row} {r : Reading} (h : Tracks rows r) {x : Row}

include h

/-- A row without declarations whose frames are the open ones: what is left to say is which nodes
it adds. -/
theorem Tracks.closed (hcloses : x.closesScopes) (htag : ¬x.tag?.isSome)
    (hdecl : x.declarations = []) :
    Stands (rows ++ [x]) (openRows (rows ++ [x])) (r.scopes.close x.indent) := by
  rw [openRows_of_closesScopes rows hcloses htag]
  exact (h.frames.close x.indent).append hdecl

theorem Tracks.after_idle (hcloses : ¬x.closesScopes) (htag : x.tag? = none)
    (htext : x.text? = none) :
    Stands (rows ++ [x]) (openRows (rows ++ [x])) r.scopes ∧
      r.scopes.entries = Layout.entries (rows ++ [x]) := by
  have hdecl := Row.declarations_of_not_closesScopes hcloses
  constructor
  · rw [openRows_of_not_closesScopes rows hcloses]
    exact h.frames.append hdecl
  · rw [entries_of_no_declarations rows hdecl, h.entries, parentedItem?, item?_eq_none htag htext]
    simp

theorem Tracks.after_text {t : TextLine} (hk : x.kind? = some (.text t)) :
    let s := (r.scopes.close x.indent).attach (.text ⟨t.text, t.binding, x.line.position⟩)
    Stands (rows ++ [x]) (openRows (rows ++ [x])) s ∧ s.entries = Layout.entries (rows ++ [x]) := by
  have hcloses : x.closesScopes := by simp [Row.closesScopes, hk]
  have htag : x.tag? = none := Row.tag?_of_kind? hk
  have hdecl : x.declarations = [] := by simp [Row.declarations, hk]
  have hrun : run? x = some ⟨t.text, t.binding, x.line.position⟩ := by
    simp [run?, Row.text?, hk, LineKind.text?]
  constructor
  · have hclosed := h.closed hcloses (by simp [htag]) hdecl
    rwa [Stands, Scopes.heads_attach]
  · rw [Scopes.entries_attach, Scopes.entries_close, h.entries,
      entries_of_no_declarations rows hdecl, h.frames.top?_close]
    simp [Node.parented, parentedItem?, item?, element?, htag, hrun]

theorem Tracks.after_tag {t : TagLine} (hk : x.kind? = some (.tag t)) (hfresh : x ∉ rows) :
    let s := (r.scopes.close x.indent).push x.indent (Reading.elementOf x.line t).element
    Stands (rows ++ [x]) (openRows (rows ++ [x])) s ∧ s.entries = Layout.entries (rows ++ [x]) := by
  have hcloses : x.closesScopes := by simp [Row.closesScopes, hk]
  have htag : x.tag? = some t := Row.tag?_of_kind? hk
  have hdecl : x.declarations = [] := by simp [Row.declarations, hk]
  have helement : element? rows x = some (Reading.elementOf x.line t).element := by
    simp [element?, htag, received_eq_nil hfresh]
  constructor
  · have hrest := (h.frames.close x.indent).append hdecl
    rw [← filter_openRows] at hrest
    rw [Stands] at hrest ⊢
    rw [Scopes.heads_push, List.map_cons, hrest, openRows_append_singleton,
      element?_of_no_declarations rows hdecl]
    simp [htag, hcloses, helement]
  · rw [Scopes.entries_push, Scopes.entries_close, h.entries,
      entries_of_no_declarations rows hdecl, h.frames.top?_close]
    simp [parentedItem?, item?, helement]

/-- **The frames and the nodes keep up with every row.** The cases are the kinds of rows. -/
theorem Tracks.after_row (hlaid : IsLaidOut (rows ++ [x]))
    (hnodup : ((rows ++ [x]).map fun y => y.line.position).Nodup) :
    Stands (rows ++ [x]) (openRows (rows ++ [x])) (r.scopes.after x) ∧
      (r.scopes.after x).entries = Layout.entries (rows ++ [x]) := by
  have hrows : (rows.map fun y => y.line.position).Nodup := by
    rw [List.map_append] at hnodup
    exact hnodup.of_append_left
  have hfresh : x ∉ rows := by
    rw [List.map_append] at hnodup
    intro hx
    exact List.disjoint_of_nodup_append hnodup (List.mem_map_of_mem hx) (by simp)
  rw [Scopes.after]
  cases hk : x.kind? with
  | none =>
    have hin : x.inStyle := by
      by_contra hout
      exact absurd hk (by simp [Row.kind?, hout])
    have htag : x.tag? = none := by simp [Row.tag?, hk]
    have htext : x.text? = none := by simp [Row.text?, hk]
    -- Inside a block nothing is left to close, so the frames are those from before.
    by_cases hcloses : x.closesScopes
    · refine Stands.after_style ?_ h.entries hrows hcloses htag htext
      rw [openRows_of_inStyle hlaid hin hcloses]
      exact h.frames
    · simpa [Row.declarations_of_not_closesScopes hcloses] using h.after_idle hcloses htag htext
  | some k =>
    cases k with
    | closing | unrecognized | misnamed name =>
      exact h.after_idle (by simp [Row.closesScopes, hk]) (Row.tag?_of_kind? hk)
        (Row.text?_of_kind? hk)
    | state d =>
      have hcloses : x.closesScopes := by simp [Row.closesScopes, hk]
      have htag : x.tag? = none := Row.tag?_of_kind? hk
      have htext : x.text? = none := Row.text?_of_kind? hk
      have hdecl : x.declarations = [] := by simp [Row.declarations, hk]
      refine ⟨h.closed hcloses (by simp [htag]) hdecl, ?_⟩
      rw [Scopes.entries_close, h.entries, entries_of_no_declarations rows hdecl, parentedItem?,
        item?_eq_none htag htext]
      simp
    | style d =>
      have hcloses : x.closesScopes := by simp [Row.closesScopes, hk]
      have htag : x.tag? = none := Row.tag?_of_kind? hk
      have htext : x.text? = none := Row.text?_of_kind? hk
      refine Stands.after_style ?_ ?_ hrows hcloses htag htext
      · rw [openRows_of_closesScopes rows hcloses (by simp [htag])]
        exact h.frames.close x.indent
      · rw [Scopes.entries_close, h.entries]
    | text t => exact h.after_text hk
    | tag t => exact h.after_tag hk hfresh

end Step

/-! ### Whole sources -/

/-- **A reading tracks the rows of its lines**: every line preserves the invariant. -/
theorem tracks_ofLines (ls : List Line) (hnodup : (ls.map Line.position).Nodup) :
    Tracks (ofLines ls) (Reading.ofLines ls) := by
  induction ls using List.reverseRecOn with
  | nil => exact tracks_nil
  | append_singleton ls l ih =>
    have hls : (ls.map Line.position).Nodup := by
      rw [List.map_append] at hnodup
      exact hnodup.of_append_left
    have hlaid := isLaidOut_ofLines (ls ++ [l])
    have hpositions := map_position_ofLines (ls ++ [l])
    rw [ofLines_append_singleton] at hlaid hpositions ⊢
    rw [Reading.ofLines_append_singleton]
    obtain ⟨hframes, hentries⟩ := (ih hls).after_row hlaid (hpositions ▸ hnodup)
    constructor
    · rwa [Reading.scopes_step]
    · rwa [Reading.scopes_step]

/-- **The forest of a source is the one that its layout describes.** -/
theorem parentedAll_nodes (src : Bytes) :
    Node.parentedAll none (SourceTree.ofSource src).nodes = entries (ofSource src) :=
  (tracks_ofLines _ (Line.nodup_positions_ofSource src)).entries

/-- **The nodes of a source in pre-order** are those of its rows, in the order of the rows. -/
theorem items_nodes (src : Bytes) : Node.items (SourceTree.ofSource src).nodes =
    (ofSource src).filterMap (item? (ofSource src)) := by
  rw [Node.items, parentedAll_nodes, entries, List.map_filterMap]
  conv => rhs; arg 2; rw [← map_snd_placed (ofSource src)]
  rw [List.filterMap_map]
  refine List.filterMap_congr fun y _ => ?_
  rw [parentedItem?, Option.map_map]
  exact Option.map_id'

/-- What has been read in front of a row of a source tracks the rows there. -/
theorem tracks_before {src : Bytes} {before after : List Row} {x : Row}
    (h : ofSource src = before ++ x :: after) :
    Tracks before (Reading.ofLines (before.map Row.line)) := by
  have hbefore := eq_ofLines_of_append h
  have hpositions := nodup_positions_ofSource src
  rw [h, List.map_append] at hpositions
  have htracks := tracks_ofLines (before.map Row.line)
    (by rw [List.map_map]; exact hpositions.of_append_left)
  rwa [← hbefore] at htracks

/-- Rows at the same position are in the same place. -/
theorem split_unique {src : Bytes} {before before' after after' : List Row} {x x' : Row}
    (h : ofSource src = before ++ x :: after) (h' : ofSource src = before' ++ x' :: after')
    (hposition : x'.line.position = x.line.position) : before' = before ∧ x' = x := by
  have hnodup := nodup_positions_ofSource src
  have hx : x ∈ ofSource src := by simp [h]
  have hx' : x' ∈ ofSource src := by simp [h']
  obtain rfl : x' = x := eq_of_position_eq hnodup hx hx' hposition
  -- A row that occurs once splits the rows in one way.
  have hrows : (ofSource src).Nodup := List.Nodup.of_map _ hnodup
  rw [h] at hrows h'
  have hnot := List.nodup_middle.mp hrows
  rw [List.nodup_cons, List.mem_append, not_or] at hnot
  exact ⟨((List.append_cons_inj_of_notMem hnot.1.1 hnot.1.2).mp h').1.symm, rfl⟩

/-- An open tag line has an element. -/
theorem parent?_bind_eq_none_iff {indent : Nat} {rows rows' : List Row} :
    (parent? indent rows).bind (element? rows') = none ↔ parent? indent rows = none := by
  cases hp : parent? indent rows with
  | none => simp
  | some a =>
    obtain ⟨t, ht⟩ := Option.isSome_iff_exists.mp (mem_of_parent? hp).2
    simp [element?, ht]

/-- **A directive is reported to have no element exactly when it has no parent.** -/
theorem orphanStyle_mem_diagnostics_iff {src : Bytes} {before after : List Row} {x : Row}
    (h : ofSource src = before ++ x :: after) (hd : x.directive?.isSome) :
    ⟨x.line.position, .orphanStyle⟩ ∈ (SourceTree.ofSource src).diagnostics ↔
      parent? x.indent before = none := by
  -- What the lines in front of the directive leave open is known, so only its own report counts.
  have hopen {before' : List Row} {x' : Row} {after' : List Row}
      (h' : ofSource src = before' ++ x' :: after') :
      ((Reading.ofLines (before'.map Row.line)).scopes.close x'.indent).top? = none ↔
        parent? x'.indent before' = none := by
    rw [(tracks_before h').frames.top?_close, parent?_bind_eq_none_iff]
  rw [SourceTree.mem_diagnostics_ofSource rfl]
  constructor
  · rintro ⟨before', x', after', h', hmem⟩
    obtain ⟨hposition, -, htop⟩ := Reading.orphanStyle_mem_notices_iff.mp hmem
    obtain ⟨rfl, rfl⟩ := split_unique h h' hposition.symm
    exact (hopen h').mp htop
  · intro hnone
    exact ⟨before, x, after, h,
      Reading.orphanStyle_mem_notices_iff.mpr ⟨rfl, hd, (hopen h).mpr hnone⟩⟩

/-- **Nesting follows the indents.** The rows of a source are its significant lines, which have
distinct positions, and the nodes of its tree with their parents are the entries of the rows. So the
parent of a node, and the element that receives the declarations of a style row, is that of
`parent?`: the last tag line in front that is indented less, and less than every row between that
closes scopes. The block of a directive is what it reaches, all of it has the parent of the
directive, and the directive is reported to be without an element exactly when there is no such tag
line. -/
theorem nesting_follows_indents (src : Bytes) :
    (ofSource src).map Row.line = Line.ofSource src ∧
    ((Line.ofSource src).map Line.position).Nodup ∧
    Node.parentedAll none (SourceTree.ofSource src).nodes = entries (ofSource src) ∧
    ∀ (before : List Row) (x : Row) (after : List Row), ofSource src = before ++ x :: after →
      (∀ a : Row, parent? x.indent before = some a ↔ ∃ b bs : List Row, before = b ++ a :: bs ∧
        a.tag?.isSome ∧ a.Reaches bs x.indent ∧
        ∀ (c : List Row) (a' : Row) (cs : List Row), bs = c ++ a' :: cs →
          a'.tag?.isSome → ¬a'.Reaches cs x.indent) ∧
      (x.inStyle ↔ ∃ (b : List Row) (d : Row) (bs : List Row), before = b ++ d :: bs ∧
        d.directive?.isSome ∧ d.Reaches bs x.indent) ∧
      (∀ (b : List Row) (d : Row) (bs : List Row), before = b ++ d :: bs →
        d.directive?.isSome → d.Reaches bs x.indent →
          parent? x.indent before = parent? d.indent b) ∧
      (x.directive?.isSome →
        (⟨x.line.position, .orphanStyle⟩ ∈ (SourceTree.ofSource src).diagnostics ↔
          parent? x.indent before = none)) := by
  refine ⟨map_line_ofLines _, Line.nodup_positions_ofSource src, parentedAll_nodes src,
    fun before x after h => ?_⟩
  have hlaid : IsLaidOut (ofSource src) := isLaidOut_ofLines _
  refine ⟨fun a => parent?_eq_some_iff, inStyle_iff hlaid h, ?_, orphanStyle_mem_diagnostics_iff h⟩
  rintro b d bs rfl hd hreach
  exact parent?_of_block (IsLaidOut.of_append (h ▸ hlaid)) hd hreach

/-- A declaration below a directive, and a directive that nothing reaches. -/
theorem nesting_follows_indents_block : ∃ div directive color orphan : Row,
    ofSource (utf8 "div\n  style \x7b\n    color: red\nstyle \x7b") =
      [div, directive, color, orphan] ∧
    parent? color.indent [div, directive] = parent? directive.indent [div] ∧
    ⟨orphan.line.position, .orphanStyle⟩ ∈
      (SourceTree.ofSource (utf8 "div\n  style \x7b\n    color: red\nstyle \x7b")).diagnostics := by
  have h : ofSource (utf8 "div\n  style \x7b\n    color: red\nstyle \x7b") =
      [⟨⟨1, 0, utf8 "div"⟩, false⟩, ⟨⟨2, 2, utf8 "style \x7b"⟩, false⟩,
        ⟨⟨3, 4, utf8 "color: red"⟩, true⟩, ⟨⟨4, 0, utf8 "style \x7b"⟩, false⟩] := by decide +kernel
  have hcolor := (nesting_follows_indents _).2.2.2 [_, _] _ [_] h
  have horphan := (nesting_follows_indents _).2.2.2 [_, _, _] _ [] h
  refine ⟨_, _, _, _, h, hcolor.2.2.1 [_] _ [] rfl (by decide +kernel) (by decide), ?_⟩
  exact (horphan.2.2.2 (by decide +kernel)).mpr (by decide +kernel)

end Layout

end LiveMarkup

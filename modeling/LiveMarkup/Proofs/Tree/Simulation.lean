import LiveMarkup.Proofs.Tree.Placeless
import LiveMarkup.Proofs.Tree.Runs
import LiveMarkup.Proofs.Tree.Scopes

/-!
# Two sources with the same output

Two readings are alike (`LiveMarkup.Reading.Alike`) if their open elements and their declared states
are equal without positions, and their indents are in a relation under which indents are compared
alike (`LiveMarkup.OrderAlike`). Handlers, reports and the count of blocks may differ: nothing of
them goes into the tree.

Two steps keep readings alike. A line that does what the line of the other source does is read on
both sides (`LiveMarkup.Reading.Alike.step`), and a line that does nothing to the tree is read on
one side only (`LiveMarkup.Reading.Alike.skip`). So the output is the same if one source arises from
the other by such steps (`LiveMarkup.Edited`, `LiveMarkup.SourceTree.sameOutput_of_edited`).
-/

namespace LiveMarkup

/-- Indents in the relation are ordered alike. -/
def OrderAlike (R : Nat → Nat → Prop) : Prop :=
  ∀ i i' j j', R i i' → R j j' → (i ≤ j ↔ i' ≤ j')

/-- Two sources have the same document and the same outline. -/
def SourceTree.SameOutput (a b : Bytes) : Prop :=
  Document.compile a = Document.compile b ∧
    Outline.dump (ofSource a).nodes = Outline.dump (ofSource b).nodes

/-! ### Open elements -/

/-- Two open elements are equal without positions, and their indents are related. -/
structure Frame.Alike (R : Nat → Nat → Prop) (f g : Frame) : Prop where
  indent : R f.indent g.indent
  element : f.element.placeless = g.element.placeless
  children : Node.placelessAll f.children = Node.placelessAll g.children

namespace Scopes

/-- The open elements are equal without positions one by one, and so are the nodes below none. -/
structure Alike (R : Nat → Nat → Prop) (s t : Scopes) : Prop where
  nodes : Node.placelessAll s.nodes = Node.placelessAll t.nodes
  frames : List.Forall₂ (Frame.Alike R) s.frames t.frames

namespace Alike

variable {R : Nat → Nat → Prop} {s t : Scopes}

theorem attach (h : s.Alike R t) {n m : Node} (hn : n.placeless = m.placeless) :
    (s.attach n).Alike R (t.attach m) := by
  obtain ⟨nodes, frames⟩ := s
  obtain ⟨nodes', frames'⟩ := t
  obtain ⟨hnodes, hframes⟩ := h
  cases hframes with
  | nil =>
    refine ⟨?_, .nil⟩
    simp only [Scopes.attach, Node.placelessAll_append, hnodes, Node.placelessAll_cons, hn]
  | cons hf hfs =>
    refine ⟨hnodes, .cons ⟨hf.indent, hf.element, ?_⟩ hfs⟩
    simp only [Node.placelessAll_append, hf.children, Node.placelessAll_cons, hn]

/-- **The same elements are closed**, if the indents of the open ones compare alike with the two at
which they are closed. -/
theorem close (h : s.Alike R t) {i i' : Nat} (hi : ∀ j j', R j j' → (i ≤ j ↔ i' ≤ j')) :
    (s.close i).Alike R (t.close i') := by
  fun_induction Scopes.close i s generalizing t with
  | case1 nodes =>
    obtain ⟨nodes', frames'⟩ := t
    obtain ⟨hnodes, hframes⟩ := h
    cases hframes
    rw [close_nil]
    exact ⟨hnodes, .nil⟩
  | case2 nodes f fs hle ih =>
    obtain ⟨nodes', frames'⟩ := t
    obtain ⟨hnodes, hframes⟩ := h
    cases hframes with
    | @cons _ g _ gs hf hfs =>
      have houter : Alike R ⟨nodes, fs⟩ ⟨nodes', gs⟩ := ⟨hnodes, hfs⟩
      rw [close_cons, if_pos ((hi _ _ hf.indent).mp hle)]
      refine ih (houter.attach ?_)
      rw [Frame.node, Frame.node, Node.placeless_element, Node.placeless_element, hf.element,
        hf.children]
  | case3 nodes f fs hle =>
    obtain ⟨nodes', frames'⟩ := t
    obtain ⟨hnodes, hframes⟩ := h
    cases hframes with
    | cons hf hfs =>
      rw [close_cons, if_neg fun hle' => hle ((hi _ _ hf.indent).mpr hle')]
      exact ⟨hnodes, .cons hf hfs⟩

theorem push (h : s.Alike R t) {i i' : Nat} (hi : R i i') {e e' : Element}
    (he : e.placeless = e'.placeless) : (s.push i e).Alike R (t.push i' e') :=
  ⟨h.nodes, .cons ⟨hi, he, rfl⟩ h.frames⟩

theorem addStyle (h : s.Alike R t) (ps : List StyleProperty) :
    (s.modifyTop (·.addStyle ps)).Alike R (t.modifyTop (·.addStyle ps)) := by
  obtain ⟨nodes, frames⟩ := s
  obtain ⟨nodes', frames'⟩ := t
  obtain ⟨hnodes, hframes⟩ := h
  cases hframes with
  | nil => exact ⟨hnodes, .nil⟩
  | cons hf hfs =>
    refine ⟨hnodes, .cons ⟨hf.indent, ?_, hf.children⟩ hfs⟩
    rw [Element.placeless_addStyle, Element.placeless_addStyle, hf.element]

theorem forest (h : s.Alike R t) : Node.placelessAll s.forest = Node.placelessAll t.forest :=
  (h.close fun j j' _ => iff_of_true (Nat.zero_le j) (Nat.zero_le j')).nodes

end Alike

end Scopes

/-! ### Rows that do the same, and rows that do nothing -/

namespace Row

/-- Two rows do the same to a tree: they have the same text, or they are tag lines that differ at
most in opening a block. -/
inductive Like (x y : Row) : Prop
  | text (hin : x.inStyle = y.inStyle) (h : x.line.text = y.line.text)
  | tag (t : TagLine) (block : Bool) (hx : x.kind? = some (.tag t))
    (hy : y.kind? = some (.tag { t with block }))

/-- Rows that do the same are taken for the same, or are tag lines that differ at most in opening a
block. -/
theorem Like.kinds {x y : Row} (h : x.Like y) :
    (x.kind? = y.kind? ∧ x.declarations = y.declarations) ∨
      ∃ (t : TagLine) (block : Bool), x.kind? = some (.tag t) ∧
        y.kind? = some (.tag { t with block }) := by
  cases h with
  | text hin h =>
    have hkind : x.kind? = y.kind? := by rw [kind?, kind?, hin, h]
    exact Or.inl ⟨hkind, by rw [declarations, declarations, hkind, h]⟩
  | tag t block hx hy => exact Or.inr ⟨t, block, hx, hy⟩

/-- Whether a row does nothing to a tree: it is a closing mark, is not recognized, is a declaration
with a bad name, or is inside a style block and declares nothing. -/
def isIdle (x : Row) : Bool :=
  match x.kind? with
  | none => x.declarations.isEmpty
  | some .closing | some .unrecognized | some (.misnamed _) => true
  | some (.state _) | some (.style _) | some (.text _) | some (.tag _) => false

variable {x : Row}

theorem after_of_isIdle (h : x.isIdle) (s : Scopes) : s.after x = s := by
  rw [isIdle] at h
  rw [Scopes.after]
  cases hk : x.kind? with
  | none =>
    have hnone : x.declarations = [] := by simpa [hk] using h
    simp [hnone]
  | some k =>
    rw [hk] at h
    cases k with
    | closing | unrecognized | misnamed name => rfl
    | state d | style d | text d | tag d => exact absurd h (by simp)

theorem styleAfter_of_isIdle (h : x.isIdle) (style : Option Nat) : x.styleAfter style = style := by
  rw [isIdle] at h
  rw [styleAfter]
  cases hk : x.kind? with
  | none => rfl
  | some k =>
    rw [hk] at h
    cases k with
    | closing | unrecognized | misnamed name => rfl
    | state d | style d | text d | tag d => exact absurd h (by simp)

theorem state?_of_isIdle (h : x.isIdle) : x.state? = none := by
  rw [isIdle] at h
  rw [state?]
  cases hk : x.kind? with
  | none => rfl
  | some k =>
    rw [hk] at h
    cases k with
    | closing | unrecognized | misnamed name => rfl
    | state d | style d | text d | tag d => exact absurd h (by simp)

end Row

section Rows

variable {R : Nat → Nat → Prop} {x y : Row}

theorem Scopes.Alike.after {s t : Scopes} (h : s.Alike R t) (hR : OrderAlike R)
    (hi : R x.indent y.indent) (hxy : x.Like y) : (s.after x).Alike R (t.after y) := by
  have hclose : (s.close x.indent).Alike R (t.close y.indent) :=
    h.close fun j j' hj => hR _ _ _ _ hi hj
  rw [Scopes.after, Scopes.after]
  rcases hxy.kinds with ⟨hkind, hdeclared⟩ | ⟨d, block, hx, hy⟩
  · rw [← hkind, ← hdeclared]
    cases x.kind? with
    | none => exact h.addStyle _
    | some k =>
      cases k with
      | closing | unrecognized | misnamed name => exact h
      | state d => exact hclose
      | style d => exact hclose.addStyle _
      | text d => exact hclose.attach rfl
      | tag d => exact hclose.push hi (Reading.placeless_elementOf x.line y.line d d.block)
  · rw [hx, hy]
    exact hclose.push hi (Reading.placeless_elementOf x.line y.line d block)

theorem Row.Like.styleAfter (hxy : x.Like y) (hi : R x.indent y.indent) {style style' : Option Nat}
    (h : Option.Rel R style style') : Option.Rel R (x.styleAfter style) (y.styleAfter style') := by
  rw [Row.styleAfter, Row.styleAfter]
  rcases hxy.kinds with ⟨hkind, -⟩ | ⟨d, block, hx, hy⟩
  · rw [← hkind]
    cases x.kind? with
    | none => exact h
    | some k =>
      cases k with
      | closing | unrecognized | misnamed name => exact h
      | style d => exact .some hi
      | state d | text d | tag d => exact .none
  · rw [hx, hy]
    exact .none

theorem Row.Like.states (hxy : x.Like y) {t t' : StateTable} (h : t.placeless = t'.placeless) :
    (t.after x).placeless = (t'.after y).placeless := by
  have hstate : x.state? = y.state? := by
    rcases hxy.kinds with ⟨hkind, -⟩ | ⟨d, block, hx, hy⟩
    · rw [Row.state?, Row.state?, hkind]
    · rw [Row.state?_of_kind? hx, Row.state?_of_kind? hy]
      rfl
  rw [StateTable.after, StateTable.after, ← hstate]
  cases x.state? with
  | none => exact h
  | some d => rw [StateTable.placeless_declare, h, StateTable.placeless_declare]

end Rows

/-! ### Readings -/

namespace Reading

/-- Two readings are equal in all that goes into the tree, up to positions and related indents. -/
structure Alike (R : Nat → Nat → Prop) (r s : Reading) : Prop where
  scopes : r.scopes.Alike R s.scopes
  style : Option.Rel R r.style s.style
  states : r.states.placeless = s.states.placeless

namespace Alike

variable {R : Nat → Nat → Prop} {r s : Reading}

theorem start : Alike R {} {} := ⟨⟨rfl, .nil⟩, .none, rfl⟩

/-- Whether a line is inside a style block is decided alike. -/
theorem inStyle (h : r.Alike R s) (hR : OrderAlike R) {l m : Line} (hi : R l.indent m.indent) :
    r.inStyle l = s.inStyle m := by
  have hstyle := h.style
  rw [Reading.inStyle, Reading.inStyle]
  generalize r.style = a, s.style = b at hstyle
  cases hstyle with
  | none => rfl
  | some hj =>
    have hle := hR _ _ _ _ hi hj
    rw [Option.any_some, Option.any_some, Bool.eq_iff_iff, decide_eq_true_eq, decide_eq_true_eq]
    omega

/-- **A line that does the same is read on both sides.** -/
theorem step (h : r.Alike R s) (hR : OrderAlike R) {l m : Line} (hi : R l.indent m.indent)
    (hlm : (r.row l).Like (s.row m)) : (r.step l).Alike R (s.step m) where
  scopes := by
    rw [scopes_step, scopes_step]
    exact h.scopes.after hR hi hlm
  style := by
    rw [style_step, style_step]
    exact hlm.styleAfter hi h.style
  states := by
    rw [states_step, states_step]
    exact hlm.states h.states

/-- **A line that does nothing is read on one side only.** -/
theorem skip (h : r.Alike R s) {l : Line} (hl : (r.row l).isIdle) : (r.step l).Alike R s where
  scopes := by
    rw [scopes_step, Row.after_of_isIdle hl]
    exact h.scopes
  style := by
    rw [style_step, Row.styleAfter_of_isIdle hl]
    exact h.style
  states := by
    rw [states_step, StateTable.after, Row.state?_of_isIdle hl]
    exact h.states

end Alike

/-- The rows of lines that are read one after another. -/
def rows (r : Reading) : List Line → List Row
  | [] => []
  | l :: ls => r.row l :: (r.step l).rows ls

theorem rows_append_singleton (r : Reading) (ls : List Line) (l : Line) :
    r.rows (ls ++ [l]) = r.rows ls ++ [(ls.foldl Reading.step r).row l] := by
  induction ls generalizing r with
  | nil => rfl
  | cons m ls ih => rw [List.cons_append, rows, rows, ih, List.foldl_cons, List.cons_append]

theorem rows_eq_layout (ls : List Line) : rows {} ls = Layout.ofLines ls := by
  induction ls using List.reverseRecOn with
  | nil => rfl
  | append_singleton ls l ih =>
    rw [rows_append_singleton, ih, Layout.ofLines_append_singleton]
    rfl

end Reading

/-! ### Edits -/

/-- **An edit of a source**: from the rows of the one to the lines of the other, where a line is
kept with an indent in the relation, a tag line is kept and opens no block any more, or a line that
does nothing is dropped. -/
inductive Edited (R : Nat → Nat → Prop) : List Row → List Line → Prop
  | nil : Edited R [] []
  | keep {x : Row} {m : Line} {xs : List Row} {ms : List Line} (hi : R x.indent m.indent)
    (htext : x.line.text = m.text) (h : Edited R xs ms) : Edited R (x :: xs) (m :: ms)
  | unmark {x : Row} {m : Line} {xs : List Row} {ms : List Line} {t : TagLine}
    (hi : R x.indent m.indent) (hx : x.kind? = some (.tag t))
    (hm : LineKind.ofText m.text = .tag { t with block := false }) (h : Edited R xs ms) :
    Edited R (x :: xs) (m :: ms)
  | drop {x : Row} {xs : List Row} {ms : List Line} (hx : x.isIdle) (h : Edited R xs ms) :
    Edited R (x :: xs) ms

namespace Edited

variable {R : Nat → Nat → Prop}

/-- **Readings stay alike over an edit.** The induction is on the lines of the first source. -/
theorem alike (hR : OrderAlike R) {ls ms : List Line} {r s : Reading}
    (h : Edited R (r.rows ls) ms) (hrs : r.Alike R s) :
    (ls.foldl Reading.step r).Alike R (ms.foldl Reading.step s) := by
  induction ls generalizing r s ms with
  | nil =>
    cases h
    exact hrs
  | cons l ls ih =>
    rw [Reading.rows] at h
    cases h with
    | keep hi htext h =>
      rw [List.foldl_cons, List.foldl_cons]
      exact ih h (hrs.step hR hi (.text (hrs.inStyle hR hi) htext))
    | unmark hi hx hm h =>
      -- A tag line is outside style blocks, and then so is the other one.
      have hin : r.inStyle l = false := by
        cases hin : r.inStyle l with
        | true => exact absurd hx (by simp [Reading.kind?_row_of_inStyle r l hin])
        | false => rfl
      have hy := Reading.kind?_row_of_not_inStyle s _ ((hrs.inStyle hR hi).symm.trans hin)
      rw [hm] at hy
      rw [List.foldl_cons, List.foldl_cons]
      exact ih h (hrs.step hR hi (.tag _ false hx hy))
    | drop hx h => exact ih h (hrs.skip hx)

end Edited

namespace SourceTree

/-- **An edited source has the same output.** -/
theorem sameOutput_of_edited {R : Nat → Nat → Prop} (hR : OrderAlike R) {a b : Bytes}
    (h : Edited R (Layout.ofSource a) (Line.ofSource b)) : SameOutput a b := by
  rw [Layout.ofSource, ← Reading.rows_eq_layout] at h
  have halike := h.alike hR Reading.Alike.start
  have hnodes : Node.placelessAll (ofSource a).nodes = Node.placelessAll (ofSource b).nodes :=
    halike.scopes.forest
  have hstates : (ofSource a).states.placeless = (ofSource b).states.placeless := halike.states
  constructor
  · rw [Document.compile, Document.ofTree, ← Document.generate_placeless, hstates, hnodes,
      Document.generate_placeless, Document.compile, Document.ofTree]
  · rw [← Outline.dump_placeless, hnodes, Outline.dump_placeless]

end SourceTree

end LiveMarkup

import LiveMarkup.Proofs.Tree.Declarations
import LiveMarkup.Proofs.Tree.Moved
import LiveMarkup.Proofs.Tree.Simulation
import Mathlib.Data.List.TakeWhile

/-!
# One source below another

A line that is not indented and closes scopes closes everything: all elements and the style block.
So what follows it is read as if nothing had been in front, and the tree of two sources, one below
the other, is put together from their trees (`LiveMarkup.SourceTree.sources_compose`). The positions
of the lower one are moved down (`LiveMarkup.Position.below`), by as many lines as the upper one
has.

The argument is a simulation. What the lower source has opened and closed so far stands, moved
down, behind the finished forest of the upper one (`LiveMarkup.Scopes.onto`), and every row does the
same to both (`LiveMarkup.Scopes.onto_after`). It starts with the first line of the lower source,
which closes whatever is open (`LiveMarkup.Reading.Follows.start`).
-/

namespace LiveMarkup

/-! ### Lines further down -/

/-- The position `n` lines further down. -/
def Position.below (n : Nat) (p : Position) : Position := { p with line := p.line + n }

theorem Position.below_advance (n : Nat) (p : Position) (k : Int) :
    (p.advance k).below n = (p.below n).advance k := rfl

/-- The line `n` lines further down. -/
def Line.below (n : Nat) (l : Line) : Line := { l with number := l.number + n }

/-- The row `n` lines further down. -/
def Row.below (n : Nat) (x : Row) : Row := { x with line := x.line.below n }

namespace Line

theorem position_below (n : Nat) (l : Line) : (l.below n).position = l.position.below n := by
  rw [position, below, position, Position.below]
  simp

theorem ofRaw?_add (number n : Nat) (raw : Bytes) :
    ofRaw? (number + n) raw = (ofRaw? number raw).map (below n) := by
  rw [ofRaw?, ofRaw?]
  split <;> rfl

theorem ofRaws_add (number n : Nat) (raws : List Bytes) :
    ofRaws (number + n) raws = (ofRaws number raws).map (below n) := by
  induction raws generalizing number with
  | nil => rfl
  | cons raw raws ih =>
    have hnext : number + n + 1 = number + 1 + n := by omega
    rw [ofRaws, ofRaws, ofRaw?_add, hnext, ih]
    cases ofRaw? number raw <;> rfl

/-- **The lines of two sources, one below the other.** -/
theorem ofSource_append (a b : Bytes) : ofSource (a ++ octet '\n' :: b) =
    ofSource a ++ (ofSource b).map (below (a.splitOn (octet '\n')).length) := by
  rw [ofSource, List.splitOn_append_cons_self, ofRaws_append, ofRaws_add, ofSource, ofSource]

end Line

namespace Row

variable (n : Nat) (x : Row)

@[simp] theorem kind?_below : (x.below n).kind? = x.kind? := rfl

@[simp] theorem tag?_below : (x.below n).tag? = x.tag? := rfl

@[simp] theorem state?_below : (x.below n).state? = x.state? := rfl

@[simp] theorem declarations_below : (x.below n).declarations = x.declarations := rfl

@[simp] theorem indent_below : (x.below n).indent = x.indent := rfl

@[simp] theorem styleAfter_below (style : Option Nat) :
    (x.below n).styleAfter style = x.styleAfter style := rfl

/-- The element of a tag line further down is the element moved down. -/
theorem elementOf_below (t : TagLine) : (Reading.elementOf (x.line.below n) t).element =
    (Reading.elementOf x.line t).element.moved (Position.below n) := by
  have hself (e : Element) : e.moved (fun p => p) = e := by
    have hhandlers : e.handlers.map (Handler.moved fun p => p) = e.handlers := List.map_id _
    rw [Element.moved, hhandlers]
  have hmoved := Reading.moved_elementOf (f := Position.below n) (g := fun p => p) (l := x.line)
    (m := x.line.below n) (t := t) (Line.position_below n x.line).symm
    (by rw [Line.position_below, Position.below_advance])
  rw [hmoved, hself]

theorem handlers_below :
    (x.below n).handlers = x.handlers.map (Handler.moved (Position.below n)) := by
  rw [handlers, handlers, tag?_below]
  cases x.tag? with
  | none => rfl
  | some t => exact congrArg Element.handlers (elementOf_below n x t)

end Row

/-! ### Open elements behind a finished forest -/

/-- An open element at another position. -/
def Frame.moved (f : Position → Position) (fr : Frame) : Frame :=
  ⟨fr.indent, fr.element.moved f, Node.movedAll f fr.children⟩

namespace Scopes

/-- The open elements at other positions, and the nodes below none of them behind a forest. -/
def onto (ns : List Node) (f : Position → Position) (s : Scopes) : Scopes :=
  ⟨ns ++ Node.movedAll f s.nodes, s.frames.map (Frame.moved f)⟩

section Onto

variable (ns : List Node) (f : Position → Position)

theorem onto_attach (n : Node) (s : Scopes) :
    (s.attach n).onto ns f = (s.onto ns f).attach (n.moved f) := by
  obtain ⟨nodes, frames⟩ := s
  cases frames with
  | nil => simp [attach, onto, Node.movedAll_append, Node.movedAll]
  | cons fr frs => simp [attach, onto, Frame.moved, Node.movedAll_append, Node.movedAll]

theorem onto_close (indent : Nat) (s : Scopes) :
    (s.close indent).onto ns f = (s.onto ns f).close indent := by
  fun_induction close indent s with
  | case1 nodes => rw [onto, List.map_nil, close_nil]
  | case2 nodes fr frs h ih =>
    have hnode : (fr.moved f).node = fr.node.moved f := rfl
    have h' : indent ≤ (fr.moved f).indent := h
    rw [ih, onto_attach, onto, onto, List.map_cons, close_cons, if_pos h', hnode]
  | case3 nodes fr frs h =>
    have h' : ¬indent ≤ (fr.moved f).indent := h
    rw [onto, List.map_cons, close_cons, if_neg h']

theorem onto_push (indent : Nat) (e : Element) (s : Scopes) :
    (s.push indent e).onto ns f = (s.onto ns f).push indent (e.moved f) := rfl

theorem onto_addStyle (ps : List StyleProperty) (s : Scopes) :
    (s.modifyTop (·.addStyle ps)).onto ns f = (s.onto ns f).modifyTop (·.addStyle ps) := by
  obtain ⟨nodes, frames⟩ := s
  cases frames <;> rfl

theorem forest_onto (s : Scopes) : (s.onto ns f).forest = ns ++ Node.movedAll f s.forest := by
  rw [forest, ← onto_close, onto, forest]

end Onto

/-- **A row further down does the same** behind a forest. -/
theorem onto_after (ns : List Node) (n : Nat) (x : Row) (s : Scopes) :
    (s.after x).onto ns (Position.below n) =
      (s.onto ns (Position.below n)).after (x.below n) := by
  have hposition : (x.below n).line.position = x.line.position.below n :=
    Line.position_below n x.line
  rw [after, after, Row.kind?_below, Row.declarations_below, Row.indent_below]
  cases x.kind? with
  | none => exact onto_addStyle ns _ _ s
  | some k =>
    cases k with
    | closing | unrecognized | misnamed name => rfl
    | state d => exact onto_close ns _ _ s
    | style d => exact (onto_addStyle ns _ _ _).trans (by rw [onto_close])
    | text t =>
      dsimp only
      rw [onto_attach, onto_close, hposition]
      rfl
    | tag t =>
      dsimp only
      rw [onto_push, onto_close, ← Row.elementOf_below]
      rfl

end Scopes

/-! ### Reading on -/

namespace LineKind

/-- Whether a line is a tag line, a text line, a style directive or a state declaration. -/
def isAccepted : LineKind → Bool
  | .tag _ | .text _ | .style _ | .state _ => true
  | .closing | .unrecognized | .misnamed _ => false

end LineKind

namespace Row

variable {x : Row} {k : LineKind} (hk : x.kind? = some k) (haccepted : k.isAccepted)

include hk haccepted

/-- What is accepted closes the elements first, whatever it does then. -/
theorem after_close (s : Scopes) : s.after x = (s.close x.indent).after x := by
  rw [Scopes.after, Scopes.after, hk]
  cases k with
  | closing | unrecognized | misnamed name => exact absurd haccepted (by simp [LineKind.isAccepted])
  | state d | style d | text t | tag t =>
    dsimp only
    rw [Scopes.close_close (Nat.le_refl _)]

/-- What is accepted ends the style block that was open. -/
theorem styleAfter_of_isAccepted (style style' : Option Nat) :
    x.styleAfter style = x.styleAfter style' := by
  rw [styleAfter, styleAfter, hk]
  cases k with
  | closing | unrecognized | misnamed name => exact absurd haccepted (by simp [LineKind.isAccepted])
  | state d | style d | text t | tag t => rfl

end Row

namespace Reading

/-- **A reading goes on as another one** does that has started afresh, behind a finished forest and
further down. -/
structure Follows (ns : List Node) (n : Nat) (r s : Reading) : Prop where
  scopes : r.scopes = s.scopes.onto ns (Position.below n)
  style : r.style = s.style

namespace Follows

variable {ns : List Node} {n : Nat} {r s : Reading}

theorem row (h : Follows ns n r s) (l : Line) : r.row (l.below n) = (s.row l).below n := by
  rw [Reading.row, inStyle, h.style, Reading.row, inStyle]
  rfl

theorem step (h : Follows ns n r s) (l : Line) :
    Follows ns n (r.step (l.below n)) (s.step l) where
  scopes := by rw [scopes_step, scopes_step, h.row, h.scopes, Scopes.onto_after]
  style := by rw [style_step, style_step, h.row, h.style, Row.styleAfter_below]

/-- **Reading on from any state**, if the first line is accepted and not indented: everything that
was open is closed, and the finished forest is in front. -/
theorem start (r : Reading) {l : Line} (hindent : l.indent = 0)
    (haccepted : (LineKind.ofText l.text).isAccepted) (n : Nat) :
    Follows r.scopes.forest n (r.step (l.below n)) (({} : Reading).step l) ∧
      r.row (l.below n) = (({} : Reading).row l).below n := by
  have hout (q : Reading) : q.inStyle l = false := by
    rw [inStyle, hindent]
    cases q.style <;> rfl
  have hrow : r.row (l.below n) = (({} : Reading).row l).below n := by
    rw [Reading.row, Reading.row, show r.inStyle (l.below n) = r.inStyle l from rfl, hout, hout]
    rfl
  have hkind : (({} : Reading).row l).kind? = some (LineKind.ofText l.text) :=
    kind?_row_of_not_inStyle _ l (hout _)
  have hkind' : ((({} : Reading).row l).below n).kind? = some (LineKind.ofText l.text) := hkind
  -- No element stays open, and what is left are the trees of the first source.
  have hclosed : r.scopes.close 0 = ({} : Scopes).onto r.scopes.forest (Position.below n) := by
    have hheads : (r.scopes.close 0).frames = [] := by
      have h := Scopes.heads_close 0 r.scopes
      rw [List.dropWhile_eq_nil_iff.mpr (by simp), Scopes.heads] at h
      exact List.map_eq_nil_iff.mp h
    rw [Scopes.onto, Scopes.forest]
    cases hs : r.scopes.close 0 with
    | mk nodes frames =>
      rw [hs] at hheads
      simp [Node.movedAll, show frames = [] from hheads]
  refine ⟨⟨?_, ?_⟩, hrow⟩
  · rw [scopes_step, scopes_step, hrow, Row.after_close hkind' haccepted, Row.indent_below,
      show (({} : Reading).row l).indent = 0 from hindent, hclosed, Scopes.onto_after]
  · rw [style_step, style_step, hrow, Row.styleAfter_below,
      Row.styleAfter_of_isAccepted hkind haccepted]

theorem run (h : Follows ns n r s) (ls : List Line) :
    Follows ns n ((ls.map (Line.below n)).foldl Reading.step r) (ls.foldl Reading.step s) ∧
      r.rows (ls.map (Line.below n)) = (s.rows ls).map (Row.below n) := by
  induction ls generalizing r s with
  | nil => exact ⟨h, rfl⟩
  | cons l ls ih =>
    obtain ⟨hrun, hrows⟩ := ih (h.step l)
    exact ⟨hrun, by rw [List.map_cons, rows, rows, hrows, h.row, List.map_cons]⟩

end Follows

theorem rows_append (r : Reading) (ls ms : List Line) :
    r.rows (ls ++ ms) = r.rows ls ++ (ls.foldl Reading.step r).rows ms := by
  induction ls generalizing r with
  | nil => rfl
  | cons l ls ih => rw [List.cons_append, rows, ih, rows, List.foldl_cons, List.cons_append]

end Reading

/-! ### Declaring again -/

namespace StateDeclaration

theorem revised_revised_self (x i j : Bytes) (d : StateDeclaration) :
    (d.revised x i).revised x j = d.revised x j := by
  by_cases hd : d.name = x
  · rw [revised_of_eq hd, revised_of_eq hd]
    exact revised_of_eq rfl
  · rw [revised_of_ne hd]

theorem revised_comm {x y : Bytes} (hne : x ≠ y) (i j : Bytes) (d : StateDeclaration) :
    (d.revised x i).revised y j = (d.revised y j).revised x i := by
  by_cases hx : d.name = x
  · have hy : d.name ≠ y := hx ▸ hne
    rw [revised_of_ne hy, revised_of_ne (by rwa [name_revised])]
  · rw [revised_of_ne hx, revised_of_ne (d := d.revised y j) (by rwa [name_revised])]

end StateDeclaration

namespace StateTable

open StateDeclaration (revised)

theorem moved_declareAll (f : Position → Position) (ds : List StateDeclaration) (t : StateTable) :
    (declareAll ds t).moved f = declareAll (ds.map (StateDeclaration.moved f)) (t.moved f) := by
  induction ds generalizing t with
  | nil => rfl
  | cons d ds ih => rw [declareAll_cons, ih, moved_declare, List.map_cons, declareAll_cons]; rfl

/-- Of two declarations of one name, the first has the place and the second the initializer. -/
theorem declare_declare_self (t : StateTable) (x i j : Bytes) (p q : Position) :
    ((t.declare x i p).1.declare x j q).1 = (t.declare x j p).1 := by
  refine ext_declarations ?_
  rw [declarations_of_has (has_declare.mpr (Or.inr rfl))]
  -- If the name was declared before, the initializer is revised twice; otherwise once, in the
  -- entry that was put behind the others.
  by_cases h : t.has x
  · rw [declarations_of_has h, declarations_of_has h, List.map_map]
    exact List.map_congr_left fun d _ => StateDeclaration.revised_revised_self x i j d
  · have hnew : x ∉ t.names := fun hmem => h (has_iff_mem_names.mpr hmem)
    rw [declarations_of_not_has h, declarations_of_not_has h, List.map_append,
      StateDeclaration.map_revised_of_notMem hnew, List.map_singleton]
    exact congrArg (fun d => t.declarations ++ [d]) (StateDeclaration.revised_of_eq rfl)

/-- A name that is declared already takes its new initializer before another declaration or
after it. -/
theorem declare_comm {t : StateTable} {x y : Bytes} (h : t.has x) (hne : x ≠ y) (i j : Bytes)
    (p q : Position) :
    ((t.declare x i p).1.declare y j q).1 = ((t.declare y j q).1.declare x i p).1 := by
  refine ext_declarations ?_
  rw [declarations_of_has (t := (t.declare y j q).1) (has_declare.mpr (Or.inl h))]
  by_cases hy : t.has y
  · rw [declarations_of_has (has_declare.mpr (Or.inl hy)), declarations_of_has h,
      declarations_of_has hy, List.map_map, List.map_map]
    exact List.map_congr_left fun d _ => StateDeclaration.revised_comm hne i j d
  · have hnew : ¬(t.declare x i p).1.has y := by
      rw [has_declare, not_or]
      exact ⟨hy, Ne.symm hne⟩
    rw [declarations_of_not_has hnew, declarations_of_not_has hy, declarations_of_has h,
      List.map_append, List.map_singleton, StateDeclaration.revised_of_ne (Ne.symm hne)]

/-- A declaration of a name that the others do not declare can be made first, if the name is there.
-/
theorem declareAll_declare {ds : List StateDeclaration} {x : Bytes} (hds : x ∉ ds.map (·.name))
    {t : StateTable} (h : t.has x) (i : Bytes) (p : Position) :
    ((declareAll ds t).declare x i p).1 = declareAll ds (t.declare x i p).1 := by
  induction ds generalizing t with
  | nil => rfl
  | cons d ds ih =>
    rw [List.map_cons, List.mem_cons, not_or] at hds
    rw [declareAll_cons, declareAll_cons, ih hds.2 (has_declare.mpr (Or.inl h)),
      declare_comm h hds.1]

/-- Revising an initializer in a list is declaring it once more at the end. -/
theorem declareAll_map_revised {ds : List StateDeclaration} (hnodup : (ds.map (·.name)).Nodup)
    {x : Bytes} (hx : x ∈ ds.map (·.name)) (i : Bytes) (p : Position) (t : StateTable) :
    declareAll (ds.map (revised x i)) t = ((declareAll ds t).declare x i p).1 := by
  induction ds generalizing t with
  | nil => exact absurd hx (by simp)
  | cons d ds ih =>
    rw [List.map_cons, List.nodup_cons] at hnodup
    rw [List.map_cons, declareAll_cons, declareAll_cons]
    by_cases hd : d.name = x
    · subst hd
      rw [StateDeclaration.revised_of_eq rfl, StateDeclaration.map_revised_of_notMem hnodup.1,
        declareAll_declare hnodup.1 (has_declare.mpr (Or.inr rfl)), declare_declare_self]
    · rw [List.map_cons, List.mem_cons, or_iff_right (Ne.symm hd)] at hx
      rw [StateDeclaration.revised_of_ne hd, ih hnodup.2 hx]

/-- **A table declares what the declarations do that it was made from.** -/
theorem declareAll_declarations (ds : List StateDeclaration) (t : StateTable) :
    declareAll (declareAll ds {}).declarations t = declareAll ds t := by
  induction ds using List.reverseRecOn with
  | nil => rfl
  | append_singleton ds d ih =>
    rw [declareAll_concat, declareAll_concat, ← ih]
    generalize declareAll ds {} = u
    by_cases h : u.has d.name
    · rw [declarations_of_has h]
      exact declareAll_map_revised u.distinct (has_iff_mem_names.mp h) _ _ t
    · rw [declarations_of_not_has h]
      exact declareAll_append _ _ t

end StateTable

namespace Layout

/-- The state declarations of a source, in order. -/
def declared (src : Bytes) : List StateDeclaration :=
  (Layout.ofSource src).filterMap Row.declaration?

end Layout

theorem Row.declaration?_below (n : Nat) (x : Row) :
    (x.below n).declaration? = x.declaration?.map (StateDeclaration.moved (Position.below n)) := by
  have hposition : (x.below n).line.position = x.line.position.below n :=
    Line.position_below n x.line
  rw [declaration?, declaration?, state?_below, hposition]
  cases x.state? <;> rfl

/-! ### Sources -/

namespace SourceTree

section Compose

variable {b : Bytes} {l : Line} (hfirst : (Line.ofSource b).head? = some l)
  (hindent : l.indent = 0) (haccepted : (LineKind.ofText l.text).isAccepted) (a : Bytes)

include hfirst hindent haccepted

/-- Reading the lower source after the upper one. -/
theorem follows_ofSource :
    let n := (a.splitOn (octet '\n')).length
    Reading.Follows (ofSource a).nodes n
        (Reading.ofLines (Line.ofSource (a ++ octet '\n' :: b)))
        (Reading.ofLines (Line.ofSource b)) ∧
      Layout.ofSource (a ++ octet '\n' :: b) =
        Layout.ofSource a ++ (Layout.ofSource b).map (Row.below n) := by
  intro n
  obtain ⟨ls, hls⟩ := List.head?_eq_some_iff.mp hfirst
  obtain ⟨hstart, hrow⟩ := Reading.Follows.start (Reading.ofLines (Line.ofSource a)) hindent
    haccepted n
  obtain ⟨hrun, hrows⟩ := hstart.run ls
  rw [Line.ofSource_append, hls, List.map_cons]
  constructor
  · rw [Reading.ofLines, List.foldl_append]
    exact hrun
  · rw [Layout.ofSource, Line.ofSource_append, Layout.ofSource, Layout.ofSource, hls,
      ← Reading.rows_eq_layout, ← Reading.rows_eq_layout, ← Reading.rows_eq_layout,
      Reading.rows_append, List.map_cons, Reading.rows, Reading.rows, List.map_cons, ← hrows]
    exact congrArg (_ ++ · :: _) hrow

/-- **Sources compose.** If the first significant line of the lower source is not indented and is a
tag line, a text line, a style directive or a state declaration, then the tree of the upper source
with the lower one below it has the nodes of the one and then those of the other, and its handlers
likewise, where everything of the lower source is as many lines further down as the upper one has.
Its states are those declared by the lines of the one and then of the other, in order; and the
table of the lower source says all that is needed of it. -/
theorem sources_compose :
    let below := Position.below (a.splitOn (octet '\n')).length
    let t := ofSource (a ++ octet '\n' :: b)
    t.nodes = (ofSource a).nodes ++ Node.movedAll below (ofSource b).nodes ∧
    t.handlers = (ofSource a).handlers ++ (ofSource b).handlers.map (Handler.moved below) ∧
    t.states = StateTable.declareAll
      (Layout.declared a ++ (Layout.declared b).map (StateDeclaration.moved below)) {} ∧
    t.states = StateTable.declareAll
      ((ofSource a).states.declarations ++
        (ofSource b).states.declarations.map (StateDeclaration.moved below)) {} := by
  intro below t
  obtain ⟨hfollows, hrows⟩ := follows_ofSource hfirst hindent haccepted a
  have hstates (src : Bytes) :
      (ofSource src).states = StateTable.declareAll (Layout.declared src) {} :=
    (states_eq_foldl src).trans (Layout.foldl_after_eq_declareAll _ _)
  have hdeclared : Layout.declared (a ++ octet '\n' :: b) =
      Layout.declared a ++ (Layout.declared b).map (StateDeclaration.moved below) := by
    rw [Layout.declared, hrows, List.filterMap_append, List.filterMap_map, Layout.declared,
      Layout.declared, List.map_filterMap]
    congr 2
    exact funext (Row.declaration?_below _)
  refine ⟨?_, ?_, by rw [hstates, hdeclared], ?_⟩
  · have hforest : t.nodes =
        (Reading.ofLines (Line.ofSource (a ++ octet '\n' :: b))).scopes.forest := rfl
    rw [hforest, hfollows.scopes, Scopes.forest_onto]
    rfl
  · have hhandlers (src : Bytes) :
        (ofSource src).handlers = (Layout.ofSource src).flatMap Row.handlers :=
      Reading.handlers_ofLines (Line.ofSource src)
    rw [hhandlers, hhandlers, hhandlers, hrows, List.flatMap_append, List.flatMap_map,
      List.map_flatMap]
    congr 2
    exact funext (Row.handlers_below _)
  · have hmoved (ds : List StateDeclaration) :
        (StateTable.declareAll ds {}).declarations.map (StateDeclaration.moved below) =
          (StateTable.declareAll (ds.map (StateDeclaration.moved below)) {}).declarations :=
      congrArg StateTable.declarations (StateTable.moved_declareAll below ds {})
    rw [StateTable.declareAll_append, hstates, hstates, hstates, hdeclared, hmoved,
      StateTable.declareAll_declarations, StateTable.declareAll_declarations,
      StateTable.declareAll_append]

end Compose

/-- The upper source ends with an open style block inside an element. -/
theorem sources_compose_open :
    let a := utf8 "div\n style \x7b"
    let b := utf8 "p n\n b\nstate n = 1"
    let below := Position.below 2
    let t := ofSource (a ++ octet '\n' :: b)
    (Line.ofSource b).head? = some ⟨1, 0, utf8 "p n"⟩ ∧
    t.nodes = (ofSource a).nodes ++ Node.movedAll below (ofSource b).nodes ∧
    t.states = StateTable.declareAll ((ofSource a).states.declarations ++
      (ofSource b).states.declarations.map (StateDeclaration.moved below)) {} := by
  intro a b below t
  have hfirst : (Line.ofSource (utf8 "p n\n b\nstate n = 1")).head? =
      some ⟨1, 0, utf8 "p n"⟩ := by decide +kernel
  have haccepted : (LineKind.ofText (utf8 "p n")).isAccepted := by decide +kernel
  have hlines : (a.splitOn (octet '\n')).length = 2 := rfl
  have hcompose := sources_compose hfirst rfl haccepted a
  rw [hlines] at hcompose
  exact ⟨hfirst, hcompose.1, hcompose.2.2.2⟩

end SourceTree

end LiveMarkup

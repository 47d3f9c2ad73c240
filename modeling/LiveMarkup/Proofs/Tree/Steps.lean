import LiveMarkup.Proofs.State
import LiveMarkup.Proofs.Tree.Layout

/-!
# What one line does to a reading

The state of a reading has six parts, and a line does to each of them what its row says: the frames
change by `LiveMarkup.Scopes.after`, the open style block by `LiveMarkup.Row.styleAfter`, the count
of blocks by `LiveMarkup.Row.blocksAfter`, the declared states by `LiveMarkup.StateTable.after`; the
handlers of a tag line and the problems of the row (`LiveMarkup.Reading.notices`) are appended.
`LiveMarkup.Reading.step_eq` is that equation, and nothing further on unfolds a step.

The equations `attach_eq`, `addElement_eq`, … say the same of the operations a step is made of.
Since reports are appended one after another there, each of them first collects what is reported.
-/

namespace LiveMarkup

/-! ### The parts after a row -/

/-- The well-formed declarations of a style directive. -/
def Style.Directive.declared : Style.Directive → List StyleProperty
  | .block => []
  | .inline d => (Style.parseList d).1

/-- The malformed declarations of a style directive. -/
def Style.Directive.malformed : Style.Directive → List Bytes
  | .block => []
  | .inline d => (Style.parseList d).2

namespace Scopes

/-- The open elements after a row. -/
def after (x : Row) (s : Scopes) : Scopes :=
  match x.kind? with
  | none => s.modifyTop (·.addStyle x.declarations)
  | some .closing | some .unrecognized | some (.misnamed _) => s
  | some (.state _) => s.close x.indent
  | some (.style _) => (s.close x.indent).modifyTop (·.addStyle x.declarations)
  | some (.text t) => (s.close x.indent).attach (.text ⟨t.text, t.binding, x.line.position⟩)
  | some (.tag t) => (s.close x.indent).push x.indent (Reading.elementOf x.line t).element

/-- The report about content of the innermost open element, if it cannot have any. -/
def voidNotice (s : Scopes) (position : Position) : List Diagnostic :=
  match s.top? with
  | some e => if e.isVoid then [⟨position, .voidContent e.tag⟩] else []
  | none => []

@[simp] theorem modifyTop_id (s : Scopes) : s.modifyTop (fun e => e) = s := by
  obtain ⟨nodes, frames⟩ := s
  cases frames <;> rfl

end Scopes

/-- The blocks that wait for their closing marks after a row, from those before it. -/
def Row.blocksAfter (x : Row) (blocks : Nat) : Nat :=
  match x.kind? with
  | none => if LineKind.isClosing x.line.text then blocks - x.line.text.count 0x7d else blocks
  | some .closing => blocks - x.line.text.count 0x7d
  | some (.style d) => blocks + if d = .block then 1 else 0
  | some (.tag t) => blocks + if t.block then 1 else 0
  | some (.state _) | some (.text _) | some .unrecognized | some (.misnamed _) => blocks

/-- The handlers of the element of a tag line. -/
def Row.handlers (x : Row) : List Handler :=
  (x.tag?.map fun t => (Reading.elementOf x.line t).element.handlers).getD []

/-- The declared states after a row. -/
def StateTable.after (x : Row) (t : StateTable) : StateTable :=
  match x.state? with
  | some d => (t.declare d.name d.initializer x.line.position).1
  | none => t

namespace Problem

/-- Whether a problem is neither that an element is missing nor that a declaration is. -/
def isOrdinary : Problem → Bool
  | .orphanStyle | .undeclaredBinding _ | .undeclaredTarget _ _ => false
  | _ => true

/-- Whether a problem is about a name that is not declared. -/
def isReference : Problem → Bool
  | .undeclaredBinding _ | .undeclaredTarget _ _ => true
  | _ => false

end Problem

namespace Reading

/-- The reports about the tag line of an element. -/
def tagNotices (l : Line) (t : TagLine) : List Diagnostic :=
  let a := elementOf l t
  let start := l.position.advance t.headLength
  (if t.attributes.any fun list => !list.closed then [⟨start, .unterminatedAttributes⟩] else [])
    ++ a.problems.map (⟨start, ·⟩)
    ++ (if a.element.isPlaintext then [⟨l.position, .obsoleteElement t.tag⟩] else [])
    ++ (if a.element.isVoid && (t.text.isSome || t.binding.isSome) then
        [⟨l.position, .voidContent t.tag⟩] else [])

/-- The report about closing marks without opening ones. -/
def blockNotices (r : Reading) (l : Line) : List Diagnostic :=
  if l.text.count 0x7d ≤ r.blocks then [] else [⟨l.position, .unmatchedClose⟩]

/-- What is reported about a row. -/
def notices (r : Reading) (x : Row) : List Diagnostic :=
  let p := x.line.position
  match x.kind? with
  | none =>
    if LineKind.isClosing x.line.text then r.blockNotices x.line
    else (Style.parseList x.line.text).2.map fun d => ⟨p, .malformedStyle d⟩
  | some .closing => r.blockNotices x.line
  | some .unrecognized => [⟨p, .unrecognizedLine x.line.text⟩]
  | some (.misnamed name) => [⟨p, .stateName name⟩]
  | some (.state d) => if r.states.has d.name then [⟨p, .duplicateState d.name⟩] else []
  | some (.style d) =>
    (if (r.scopes.close x.indent).top?.isNone then [⟨p, .orphanStyle⟩] else [])
      ++ d.malformed.map fun b => ⟨p, .malformedStyle b⟩
  | some (.text _) => (r.scopes.close x.indent).voidNotice p
  | some (.tag t) => tagNotices x.line t ++ (r.scopes.close x.indent).voidNotice p

/-! ### The operations of a step -/

section Operations

variable (r : Reading) (l : Line)

theorem reportIf_eq (c : Bool) (position : Position) (p : Problem) :
    reportIf c r position p =
      { r with diagnostics := r.diagnostics ++ if c then [⟨position, p⟩] else [] } := by
  cases c <;> simp [reportIf, report]

theorem closeBlocks_eq : r.closeBlocks l =
    { r with
      blocks := r.blocks - l.text.count 0x7d
      diagnostics := r.diagnostics ++ r.blockNotices l } := by
  rw [closeBlocks, blockNotices]
  split
  · simp
  · rename_i h
    rw [Nat.sub_eq_zero_of_le (Nat.le_of_not_le h)]
    rfl

theorem attach_eq (position : Position) (n : Node) : r.attach position n =
    { r with
      scopes := r.scopes.attach n
      diagnostics := r.diagnostics ++ r.scopes.voidNotice position } := by
  rw [attach, Scopes.voidNotice]
  cases r.scopes.top? with
  | none => simp
  | some e => simp [reportIf_eq]

theorem addState_eq (d : StateLine) : r.addState l d =
    { r with
      states := (r.states.declare d.name d.initializer l.position).1
      diagnostics := r.diagnostics ++
        if r.states.has d.name then [⟨l.position, .duplicateState d.name⟩] else [] } := by
  rw [addState, reportIf_eq, StateTable.snd_declare]

theorem applyStyle_eq (declarations : Bytes) : r.applyStyle l declarations =
    { r with
      scopes := r.scopes.modifyTop (·.addStyle (Style.parseList declarations).1)
      diagnostics := r.diagnostics ++
        (Style.parseList declarations).2.map fun d => ⟨l.position, .malformedStyle d⟩ } := by
  rw [applyStyle, reportAll, List.map_map]
  rfl

theorem addStyle_eq (d : Style.Directive) : r.addStyle l d =
    { r with
      scopes := r.scopes.modifyTop (·.addStyle d.declared)
      style := some l.indent
      blocks := r.blocks + if d = .block then 1 else 0
      diagnostics := r.diagnostics ++
        ((if r.scopes.top?.isNone then [⟨l.position, .orphanStyle⟩] else [])
          ++ d.malformed.map fun b => ⟨l.position, .malformedStyle b⟩) } := by
  cases d with
  | block =>
    simp [addStyle, reportIf_eq, Style.Directive.declared, Style.Directive.malformed]
  | inline d =>
    simp [addStyle, reportIf_eq, applyStyle_eq, Style.Directive.declared,
      Style.Directive.malformed]

theorem addElement_eq (t : TagLine) : r.addElement l t =
    { r with
      scopes := r.scopes.push l.indent (elementOf l t).element
      handlers := r.handlers ++ (elementOf l t).element.handlers
      blocks := r.blocks + if t.block then 1 else 0
      diagnostics := r.diagnostics ++ (tagNotices l t ++ r.scopes.voidNotice l.position) } := by
  rw [addElement, Scopes.voidNotice, tagNotices]
  cases r.scopes.top? <;> simp [reportIf_eq, reportAll]

end Operations

/-! ### The parts of a reading after a line -/

section Step

variable (r : Reading) (l : Line)

/-- A line as a row: whether it is inside a style block is up to what has been read before. -/
def row : Row := ⟨l, r.inStyle l⟩

theorem kind?_row : (r.row l).kind? = if r.inStyle l then none else some (LineKind.ofText l.text) :=
  rfl

theorem kind?_row_of_inStyle (h : r.inStyle l) : (r.row l).kind? = none := by
  rw [kind?_row, if_pos h]

theorem kind?_row_of_not_inStyle (h : r.inStyle l = false) :
    (r.row l).kind? = some (LineKind.ofText l.text) := by
  rw [kind?_row, if_neg (by simp [h])]

/-- **What a line does to a reading**: each part changes as the row of the line says. The cases are
where the line stands and what it is taken for. -/
theorem step_eq : r.step l =
    { scopes := r.scopes.after (r.row l)
      style := (r.row l).styleAfter r.style
      blocks := (r.row l).blocksAfter r.blocks
      states := r.states.after (r.row l)
      handlers := r.handlers ++ (r.row l).handlers
      diagnostics := r.diagnostics ++ r.notices (r.row l) } := by
  rw [step, Scopes.after, Row.styleAfter, Row.blocksAfter, StateTable.after, Row.state?,
    Row.handlers, Row.tag?, notices, Row.declarations]
  cases hin : r.inStyle l with
  | true =>
    rw [if_pos rfl, kind?_row_of_inStyle r l hin, styleLine]
    by_cases hc : LineKind.isClosing l.text
    · simp [hc, closeBlocks_eq, row]
    · simp [hc, applyStyle_eq, row]
  | false =>
    rw [if_neg (by simp), kind?_row_of_not_inStyle r l hin, plainLine]
    cases LineKind.ofText l.text with
    | closing => simp [closeBlocks_eq, row, LineKind.state?, LineKind.tag?]
    | unrecognized => simp [report, row, LineKind.state?, LineKind.tag?]
    | misnamed name => simp [report, row, LineKind.state?, LineKind.tag?]
    | state d => simp [addState_eq, close, row, Row.indent, LineKind.state?, LineKind.tag?]
    | style d =>
      cases d <;> simp [addStyle_eq, close, row, Row.indent, LineKind.state?, LineKind.tag?,
        Style.Directive.declared]
    | text t => simp [addText, attach_eq, close, row, Row.indent, LineKind.state?, LineKind.tag?]
    | tag t => simp [addElement_eq, close, row, Row.indent, LineKind.state?, LineKind.tag?]

theorem scopes_step : (r.step l).scopes = r.scopes.after (r.row l) := by rw [step_eq]

theorem style_step : (r.step l).style = (r.row l).styleAfter r.style := by rw [step_eq]

theorem states_step : (r.step l).states = r.states.after (r.row l) := by rw [step_eq]

theorem handlers_step : (r.step l).handlers = r.handlers ++ (r.row l).handlers := by rw [step_eq]

theorem diagnostics_step : (r.step l).diagnostics = r.diagnostics ++ r.notices (r.row l) := by
  rw [step_eq]

end Step

/-! ### Which problems a row can have -/

theorem isOrdinary_of_isEntry {p : Problem} (h : p.isEntry) : p.isOrdinary := by
  cases p <;> simp_all [Problem.isOrdinary, Problem.isEntry]

theorem isOrdinary_of_mem_blockNotices {r : Reading} {l : Line} {d : Diagnostic}
    (h : d ∈ r.blockNotices l) : d.problem.isOrdinary := by
  rw [blockNotices, List.mem_ite_nil_left] at h
  obtain rfl := List.mem_singleton.mp h.2
  rfl

theorem isOrdinary_of_mem_voidNotice {s : Scopes} {position : Position} {d : Diagnostic}
    (h : d ∈ s.voidNotice position) : d.problem.isOrdinary := by
  rw [Scopes.voidNotice] at h
  split at h
  · rw [List.mem_ite_nil_right] at h
    obtain rfl := List.mem_singleton.mp h.2
    rfl
  · exact absurd h (by simp)

theorem isOrdinary_of_mem_tagNotices {l : Line} {t : TagLine} {d : Diagnostic}
    (h : d ∈ tagNotices l t) : d.problem.isOrdinary := by
  simp only [tagNotices, List.mem_append, List.mem_map, List.mem_ite_nil_right,
    List.mem_singleton] at h
  rcases h with ((⟨-, rfl⟩ | ⟨p, hp, rfl⟩) | ⟨-, rfl⟩) | ⟨-, rfl⟩
  · rfl
  · obtain ⟨list, -, hentry⟩ := elementOf_problems l t p hp
    exact isOrdinary_of_isEntry hentry.isEntry
  · rfl
  · rfl

/-- **What a row can be reported for**: an ordinary problem, or that it is a style directive and no
element is open once it has closed what it closes. -/
theorem mem_notices_cases {r : Reading} {x : Row} {d : Diagnostic} (h : d ∈ r.notices x) :
    d.problem.isOrdinary ∨ (d = ⟨x.line.position, .orphanStyle⟩ ∧ x.directive?.isSome ∧
      (r.scopes.close x.indent).top? = none) := by
  rw [notices] at h
  cases hk : x.kind? with
  | none =>
    simp only [hk] at h
    split at h
    · exact Or.inl (isOrdinary_of_mem_blockNotices h)
    · obtain ⟨b, -, rfl⟩ := List.mem_map.mp h
      exact Or.inl rfl
  | some k =>
    cases k with
    | closing =>
      simp only [hk] at h
      exact Or.inl (isOrdinary_of_mem_blockNotices h)
    | unrecognized | misnamed name =>
      simp only [hk, List.mem_singleton] at h
      exact Or.inl (h ▸ rfl)
    | state e =>
      simp only [hk, List.mem_ite_nil_right, List.mem_singleton] at h
      exact Or.inl (h.2 ▸ rfl)
    | style e =>
      simp only [hk, List.mem_append, List.mem_ite_nil_right, List.mem_singleton,
        List.mem_map] at h
      rcases h with ⟨htop, rfl⟩ | ⟨b, -, rfl⟩
      · refine Or.inr ⟨rfl, ?_, by simpa using htop⟩
        simp [Row.directive?, hk, LineKind.directive?]
      · exact Or.inl rfl
    | text t =>
      simp only [hk] at h
      exact Or.inl (isOrdinary_of_mem_voidNotice h)
    | tag t =>
      simp only [hk, List.mem_append] at h
      rcases h with h | h
      · exact Or.inl (isOrdinary_of_mem_tagNotices h)
      · exact Or.inl (isOrdinary_of_mem_voidNotice h)

/-- **No row is reported for a name that is not declared**: that is known only at the end. -/
theorem not_isReference_of_mem_notices {r : Reading} {x : Row} {d : Diagnostic}
    (h : d ∈ r.notices x) : d.problem.isReference = false := by
  rcases mem_notices_cases h with hd | ⟨rfl, -⟩
  · cases hp : d.problem <;> simp_all [Problem.isOrdinary, Problem.isReference]
  · rfl

/-- **A style directive is reported without an element exactly when nothing is open** once it has
closed what it closes; no other row is. -/
theorem orphanStyle_mem_notices_iff {r : Reading} {x : Row} {position : Position} :
    ⟨position, .orphanStyle⟩ ∈ r.notices x ↔
      position = x.line.position ∧ x.directive?.isSome ∧ (r.scopes.close x.indent).top? = none := by
  constructor
  · intro h
    rcases mem_notices_cases h with hd | ⟨heq, hdirective, htop⟩
    · exact absurd hd (by simp [Problem.isOrdinary])
    · exact ⟨congrArg Diagnostic.position heq, hdirective, htop⟩
  · rintro ⟨rfl, hdirective, htop⟩
    obtain ⟨e, he⟩ := Option.isSome_iff_exists.mp hdirective
    have hk : x.kind? = some (.style e) := by
      obtain ⟨k, hk, hke⟩ := Option.bind_eq_some_iff.mp he
      cases k <;> simp_all [LineKind.directive?]
    simp [notices, hk, htop]

end Reading

end LiveMarkup

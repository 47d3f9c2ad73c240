import LiveMarkup.Source.Line
import LiveMarkup.Source.TagLine
import LiveMarkup.State
import LiveMarkup.Tree.Attributes

/-!
# Reading a source

The tree of a source is built line by line. An element stays open while the lines below it are
indented deeper; `LiveMarkup.Frame` is an open element with the children it has so far, and the
state of the reading holds the open frames, innermost first. A style block is open on top of them in
the same way.

Block marks have no effect on the tree; they are only counted, to report closing marks without an
opening one.

`LiveMarkup.SourceTree.ofSource` is the tree of a source with its states, handlers and diagnostics.
-/

namespace LiveMarkup

/-! ### Kinds of lines -/

/-- What a line outside a style block is. -/
inductive LineKind
  /-- A line of closing marks only. -/
  | closing
  | state (line : StateLine)
  /-- A state declaration whose name does not start like one. -/
  | misnamed (name : Bytes)
  | style (directive : Style.Directive)
  | text (line : TextLine)
  | tag (line : TagLine)
  | unrecognized
  deriving DecidableEq, Repr

namespace LineKind

/-- Whether a line consists of closing marks only. -/
def isClosing (s : Bytes) : Bool := !s.isEmpty && s.all fun b => b == 0x7d || isGapOctet b

/-- Whether a line starts like a state declaration. -/
def isStateLine (s : Bytes) : Bool :=
  (Bytes.after? (utf8 "state ") s).isSome || (Bytes.after? (utf8 "state\t") s).isSome

/-- What a line that starts like a state declaration is. -/
def ofState (s : Bytes) : LineKind :=
  match StateLine.parse? s with
  | none => .unrecognized
  | some l => if l.name.head?.any isBindingStart then .state l else .misnamed l.name

/-- What the text of a line is. -/
def ofText (s : Bytes) : LineKind :=
  if isClosing s then .closing
  else if isStateLine s then ofState s
  else
    match Style.Directive.parse? s with
    | some d => .style d
    | none =>
      if s.head?.any Quoted.isQuote then
        match TextLine.parse? s with
        | some l => .text l
        | none => .unrecognized
      else
        match TagLine.parse? s with
        | some l => .tag l
        | none => .unrecognized

end LineKind

/-! ### Open elements -/

/-- An open element with the children it has so far. -/
structure Frame where
  indent : Nat
  element : Element
  children : List Node := []

namespace Frame

/-- The node of an element that is closed. -/
def node (f : Frame) : Node := .element f.element f.children

end Frame

/-- The open elements, innermost first, and the nodes that are below none of them. -/
structure Scopes where
  nodes : List Node := []
  frames : List Frame := []

namespace Scopes

/-- Adds a node below the innermost open element. -/
def attach (n : Node) : Scopes → Scopes
  | ⟨nodes, []⟩ => ⟨nodes ++ [n], []⟩
  | ⟨nodes, f :: fs⟩ => ⟨nodes, { f with children := f.children ++ [n] } :: fs⟩

theorem length_frames_attach (n : Node) (s : Scopes) :
    (s.attach n).frames.length = s.frames.length := by
  cases s with
  | mk nodes frames => cases frames <;> simp [attach]

/-- Closes every element that does not reach beyond the given indent. -/
def close (indent : Nat) (s : Scopes) : Scopes :=
  match s with
  | ⟨nodes, []⟩ => ⟨nodes, []⟩
  | ⟨nodes, f :: fs⟩ =>
    if indent ≤ f.indent then close indent (attach f.node ⟨nodes, fs⟩) else ⟨nodes, f :: fs⟩
termination_by s.frames.length
decreasing_by simp [length_frames_attach]

/-- Opens an element. -/
def push (indent : Nat) (e : Element) (s : Scopes) : Scopes :=
  { s with frames := { indent, element := e } :: s.frames }

/-- The innermost open element. -/
def top? (s : Scopes) : Option Element := s.frames.head?.map (·.element)

/-- Changes the innermost open element, if there is one. -/
def modifyTop (f : Element → Element) : Scopes → Scopes
  | ⟨nodes, []⟩ => ⟨nodes, []⟩
  | ⟨nodes, fr :: fs⟩ => ⟨nodes, { fr with element := f fr.element } :: fs⟩

end Scopes

/-! ### The state of the reading -/

/-- What has been read so far. -/
structure Reading where
  scopes : Scopes := {}
  /-- The indent of the style block that is open on top of the elements. -/
  style : Option Nat := none
  /-- The number of opening marks that have no closing one yet. -/
  blocks : Nat := 0
  states : StateTable := {}
  handlers : List Handler := []
  diagnostics : List Diagnostic := []

namespace Reading

/-- Records a problem at a position. -/
def report (r : Reading) (position : Position) (p : Problem) : Reading :=
  { r with diagnostics := r.diagnostics ++ [⟨position, p⟩] }

/-- Records a list of problems at one position. -/
def reportAll (r : Reading) (position : Position) (ps : List Problem) : Reading :=
  { r with diagnostics := r.diagnostics ++ ps.map fun p => ⟨position, p⟩ }

/-- Records a problem if a condition holds. -/
def reportIf (c : Bool) (r : Reading) (position : Position) (p : Problem) : Reading :=
  if c then r.report position p else r

/-- Closes every element, and the style block, that does not reach beyond the given indent. -/
def close (indent : Nat) (r : Reading) : Reading :=
  { r with scopes := r.scopes.close indent, style := none }

/-- Matches the closing marks of a line with opening ones. -/
def closeBlocks (r : Reading) (l : Line) : Reading :=
  let n := l.text.count 0x7d
  if n ≤ r.blocks then { r with blocks := r.blocks - n }
  else { r with blocks := 0 }.report l.position .unmatchedClose

/-- Adds a node below the innermost open element. Content of an element that cannot have any is
reported. -/
def attach (r : Reading) (position : Position) (n : Node) : Reading :=
  let attached := { r with scopes := r.scopes.attach n }
  match r.scopes.top? with
  | some e => attached.reportIf e.isVoid position (.voidContent e.tag)
  | none => attached

/-- Declares a state. -/
def addState (r : Reading) (l : Line) (d : StateLine) : Reading :=
  let declared := r.states.declare d.name d.initializer l.position
  { r with states := declared.1 }.reportIf declared.2 l.position (.duplicateState d.name)

/-- Applies declarations to the innermost open element and reports the malformed ones. -/
def applyStyle (r : Reading) (l : Line) (declarations : Bytes) : Reading :=
  let parsed := Style.parseList declarations
  { r with scopes := r.scopes.modifyTop (·.addStyle parsed.1) }.reportAll l.position
    (parsed.2.map Problem.malformedStyle)

/-- Opens a style block for the innermost open element. -/
def addStyle (r : Reading) (l : Line) (d : Style.Directive) : Reading :=
  let checked := r.reportIf r.scopes.top?.isNone l.position .orphanStyle
  let applied :=
    match d with
    | .block => { checked with blocks := checked.blocks + 1 }
    | .inline declarations => checked.applyStyle l declarations
  { applied with style := some l.indent }

/-- Adds a text run. -/
def addText (r : Reading) (l : Line) (t : TextLine) : Reading :=
  r.attach l.position (.text ⟨t.text, t.binding, l.position⟩)

/-- The element of a tag line, and what is wrong with its attribute list. -/
def elementOf (l : Line) (t : TagLine) : Attributed :=
  let named := t.classes.foldl Element.addClass { tag := t.tag, position := l.position }
  let identified :=
    match t.identifier? with
    | some x => named.setAttribute (utf8 "id") x
    | none => named
  let listed : Attributed :=
    match t.attributes with
    | some list => Attributed.addList (l.position.advance t.headLength) identified list.text
    | none => { element := identified }
  { listed with element := { listed.element with text := t.text.getD [], binding := t.binding } }

/-- Adds the element of a tag line and opens it. -/
def addElement (r : Reading) (l : Line) (t : TagLine) : Reading :=
  let a := elementOf l t
  let start := l.position.advance t.headLength
  let unterminated := t.attributes.any fun list => !list.closed
  let r₁ := (r.reportIf unterminated start .unterminatedAttributes).reportAll start a.problems
  let r₂ := r₁.reportIf a.element.isPlaintext l.position (.obsoleteElement t.tag)
  let filled := t.text.isSome || t.binding.isSome
  let r₃ := r₂.reportIf (a.element.isVoid && filled) l.position (.voidContent t.tag)
  let r₄ :=
    match r.scopes.top? with
    | some e => r₃.reportIf e.isVoid l.position (.voidContent e.tag)
    | none => r₃
  { r₄ with
    scopes := r.scopes.push l.indent a.element
    handlers := r.handlers ++ a.element.handlers
    blocks := r.blocks + (if t.block then 1 else 0) }

/-- Whether a line is inside the open style block. -/
def inStyle (r : Reading) (l : Line) : Bool := r.style.any (· < l.indent)

/-- Reads a line inside a style block. -/
def styleLine (r : Reading) (l : Line) : Reading :=
  if LineKind.isClosing l.text then r.closeBlocks l else r.applyStyle l l.text

/-- Reads a line outside style blocks. -/
def plainLine (r : Reading) (l : Line) : Reading :=
  match LineKind.ofText l.text with
  | .closing => r.closeBlocks l
  | .unrecognized => r.report l.position (.unrecognizedLine l.text)
  | .misnamed name => r.report l.position (.stateName name)
  | .state d => (r.close l.indent).addState l d
  | .style d => (r.close l.indent).addStyle l d
  | .text t => (r.close l.indent).addText l t
  | .tag t => (r.close l.indent).addElement l t

/-- Reads one more line. -/
def step (r : Reading) (l : Line) : Reading :=
  if r.inStyle l then r.styleLine l else r.plainLine l

/-- Reads a list of lines. -/
def ofLines (ls : List Line) : Reading := ls.foldl step {}

/-- The forest when everything is closed. -/
def forest (r : Reading) : List Node := (r.scopes.close 0).nodes

end Reading

/-! ### The tree of a source -/

/-- The tree of a source, and what goes with it. -/
structure SourceTree where
  nodes : List Node := []
  states : StateTable := {}
  /-- All handlers, in the order of the source. -/
  handlers : List Handler := []
  diagnostics : List Diagnostic := []

namespace SourceTree

/-- The bindings to names that are not declared. -/
def undeclaredBindings (states : StateTable) (nodes : List Node) : List Diagnostic :=
  (Node.bindings nodes).filterMap fun (x, p) =>
    if states.has x then none else some ⟨p, .undeclaredBinding x⟩

/-- The handlers of names that are not declared. -/
def undeclaredTargets (states : StateTable) (handlers : List Handler) : List Diagnostic :=
  handlers.filterMap fun h =>
    match h.statement.action.target? with
    | some x => if states.has x then none else some ⟨h.position, .undeclaredTarget x h.event⟩
    | none => none

/-- The tree of what has been read, with names that are used and not declared reported. -/
def ofReading (r : Reading) : SourceTree :=
  let nodes := r.forest
  { nodes
    states := r.states
    handlers := r.handlers
    diagnostics := r.diagnostics ++ undeclaredBindings r.states nodes
      ++ undeclaredTargets r.states r.handlers }

/-- The tree of a source. -/
def ofSource (src : Bytes) : SourceTree := ofReading (Reading.ofLines (Line.ofSource src))

end SourceTree

end LiveMarkup

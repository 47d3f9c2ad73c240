import LiveMarkup.Document.Generate
import LiveMarkup.Expression.Evaluate

/-!
# The running page

What the script of a document does, without a browser: the state record, the refreshes of
placeholders and the handlers. Expressions are evaluated by a `LiveMarkup.Evaluator`, and the
programs that it compiles texts to are kept.

`LiveMarkup.Store.start` evaluates the initializers; `update`, `fire` and `dispatch` change the
state as the script does. A failing handler changes nothing that can be seen.
-/

namespace LiveMarkup

/-- A refresh of the placeholders of a state. -/
structure Refresh (α : Type) where
  name : Bytes
  value : α
  placeholders : Nat

/-- The state of a running page. -/
structure Store (E : Evaluator) where
  /-- How many placeholders each state has. -/
  markers : Fields Nat
  /-- The handlers of the page. -/
  wirings : List Wiring
  /-- The programs of the texts that have been compiled. -/
  programs : Fields E.Program := []
  state : Fields E.Value := []
  /-- All refreshes so far. -/
  refreshes : List (Refresh E.Value) := []

/-- Why an action failed. -/
inductive ActionError
  /-- There is no handler for an event at the element with a number. -/
  | noneAt (event : Bytes) (id : Int)
  /-- The handler is left to the browser. -/
  | notCompiled (event : Bytes)
  /-- The new value cannot be evaluated. -/
  | evaluation (statement : Statement)
  deriving DecidableEq, Repr

namespace ActionError

/-- The wording of an error. -/
def message : ActionError → Bytes
  | .noneAt event id =>
    utf8 "dispatch " ++ event ++ utf8 " to " ++ decimalInt id ++ utf8 ": no handler"
  | .notCompiled event => utf8 "fire " ++ event ++ utf8 " handler: no handler"
  | .evaluation s =>
    utf8 "eval " ++ s.action.kindName ++ utf8 " statement " ++ displayed s.text

end ActionError

namespace Store

variable {E : Evaluator}

/-- The number of placeholders of a name. -/
def placeholders (s : Store E) (name : Bytes) : Nat := (Fields.get? name s.markers).getD 0

/-- The value of a text over the state record, and the page after its evaluation. A text is compiled
once. -/
def eval (s : Store E) (code : Bytes) : Option E.Value × Store E :=
  match Fields.get? code s.programs with
  | some p => (E.run? p s.state, s)
  | none =>
    match E.compile? code with
    | some p => (E.run? p s.state, { s with programs := Fields.insert code p s.programs })
    | none => (none, s)

/-- Records the refresh of the placeholders of a name. -/
def refresh (s : Store E) (name : Bytes) : Store E :=
  { s with refreshes := s.refreshes ++
      [⟨name, (Fields.get? name s.state).getD (E.constant .null), s.placeholders name⟩] }

/-- Sets a state and refreshes its placeholders. -/
def update (s : Store E) (name : Bytes) (v : E.Value) : Store E :=
  { s with state := Fields.insert name v s.state }.refresh name

/-- Evaluates initializers one after another. If one fails, its name is the result. -/
def declareAll (s : Store E) : List StateDeclaration → Except Bytes (Store E)
  | [] => .ok s
  | d :: ds =>
    match s.eval d.initializer with
    | (some v, s') => { s' with state := Fields.insert d.name v s'.state }.declareAll ds
    | (none, _) => .error d.name

/-- The page of a tree before anything is evaluated. -/
def blank (E : Evaluator) (t : SourceTree) : Store E :=
  let built := (Document.elements t.states t.nodes).2
  { markers := built.markers, wirings := built.wirings }

/-- The page at its start, with every state refreshed once. If an initializer fails, its name is the
result. -/
def start (E : Evaluator) (t : SourceTree) : Except Bytes (Store E) :=
  match (blank E t).declareAll t.states.declarations with
  | .error name => .error name
  | .ok s => .ok (t.states.names.foldl refresh s)

/-- The wording of a failing initializer. -/
def startMessage (name : Bytes) : Bytes := utf8 "eval initializer of " ++ displayed name

/-- Carries out a statement. The result is the page afterwards, and why the statement failed if it
did. -/
def run (s : Store E) (st : Statement) : Store E × Option ActionError :=
  match s.eval st.valueExpression with
  | (some v, s') => (s'.update (st.action.target?.getD []) v, none)
  | (none, s') => (s', some (.evaluation st))

/-- Carries out a handler. -/
def fire (s : Store E) (h : Handler) : Store E × Option ActionError :=
  if h.isCompiled then s.run h.statement else (s, some (.notCompiled h.event))

/-- Carries out statements one after another, up to the first one that fails. -/
def runAll (s : Store E) : List Statement → Store E × Option ActionError
  | [] => (s, none)
  | st :: sts =>
    match s.run st with
    | (s', none) => runAll s' sts
    | (s', some e) => (s', some e)

/-- Carries out all handlers of an event at the element with a number, in order. -/
def dispatch (s : Store E) (id : Int) (event : Bytes) : Store E × Option ActionError :=
  let matched := s.wirings.filter fun w => w.id = id ∧ w.event = event
  if matched.isEmpty then (s, some (.noneAt event id))
  else s.runAll (matched.map (·.statement))

end Store

end LiveMarkup

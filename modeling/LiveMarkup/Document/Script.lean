import LiveMarkup.State
import LiveMarkup.Tree.Attributes

/-!
# The script of a document

A document with states or handlers has a script. It holds the state record, refreshes the
placeholders of a state when it changes, and wires the handlers to the numbered elements. What it
needs of the elements is collected while they are written (`LiveMarkup.Builder`).
-/

namespace LiveMarkup

/-- A handler and the number of its element. -/
structure Wiring where
  id : Nat
  event : Bytes
  statement : Statement
  deriving DecidableEq, Repr

namespace Wiring

/-- The wirings of an element with a number: one for each handler that the script carries out. -/
def ofElement (id : Nat) (e : Element) : List Wiring :=
  (e.handlers.filter Handler.isCompiled).map fun h => ⟨id, h.event, h.statement⟩

end Wiring

/-- What is collected for the script while the elements of a document are written. -/
structure Builder where
  /-- The number of the next element with handlers. -/
  next : Nat := 0
  wirings : List Wiring := []
  /-- How many placeholders each state has. -/
  markers : Fields Nat := []
  deriving DecidableEq, Repr

namespace Builder

/-- The number of placeholders of a name so far. -/
def placeholders (b : Builder) (name : Bytes) : Nat := (Fields.get? name b.markers).getD 0

/-- Counts one more placeholder. -/
def addPlaceholder (b : Builder) (name : Bytes) : Builder :=
  { b with markers := Fields.insert name (b.placeholders name + 1) b.markers }

/-- Wires the handlers of an element, which takes a number if there are any to wire. -/
def addElement (b : Builder) (e : Element) : Builder :=
  { b with
    next := if e.isLive then b.next + 1 else b.next
    wirings := b.wirings ++ Wiring.ofElement b.next e }

/-- Counts the placeholder of a binding, if its state is declared. -/
def addBinding (states : StateTable) (b : Builder) : Option Bytes → Builder
  | none => b
  | some x => if states.has x then b.addPlaceholder x else b

end Builder

namespace Script

/-- A script with a backslash after every `<` that could end the script element or start a comment.
-/
def escape : Bytes → Bytes
  | [] => []
  | b :: r =>
    if b = octet '<' ∧ (r.head? = some (octet '/') ∨ (Bytes.after? (utf8 "!--") r).isSome) then
      b :: octet '\\' :: escape r
    else b :: escape r

/-- How the script starts. -/
def opening : Bytes := utf8 "\n(function () \x7b\n  var state = \x7b\x7d;\n"

/-- The functions of every script. -/
def functions : Bytes :=
  utf8 "\n  function refresh(name) \x7b\n"
    ++ utf8 "    var els = document.querySelectorAll('[" ++ bindingMark
    ++ utf8 "=\"' + name + '\"]');\n"
    ++ utf8 "    for (var i = 0; i < els.length; i++) \x7b\n"
    ++ utf8 "      els[i].textContent = state[name];\n    \x7d\n  \x7d\n\n"
    ++ utf8 "  function update(name, value) \x7b\n    state[name] = value;\n"
    ++ utf8 "    refresh(name);\n  \x7d\n\n"
    ++ utf8 "  function on(id, event, fn) \x7b\n"
    ++ utf8 "    var el = document.querySelector('[" ++ handlerMark
    ++ utf8 "=\"' + id + '\"]');\n"
    ++ utf8 "    if (el) \x7b\n      el.addEventListener(event, fn);\n    \x7d\n  \x7d\n"

/-- The line that initializes a state. -/
def initialization (d : StateDeclaration) : Bytes :=
  utf8 "  " ++ Action.stateReference d.name ++ utf8 " = " ++ d.initializer ++ utf8 ";\n"

/-- The line that wires a handler. -/
def wiring (w : Wiring) : Bytes :=
  utf8 "  on(" ++ decimalNat w.id ++ utf8 ", " ++ scriptString w.event
    ++ utf8 ", function () \x7b update(" ++ scriptString (w.statement.action.target?.getD [])
    ++ utf8 ", " ++ w.statement.valueExpression ++ utf8 "); \x7d);\n"

/-- The line that shows a state at the start. -/
def refresh (d : StateDeclaration) : Bytes :=
  utf8 "  refresh(" ++ scriptString d.name ++ utf8 ");\n"

/-- How the script ends. -/
def closing : Bytes := utf8 "\x7d)();\n"

/-- A line feed in front of lines, if there are any. -/
def paragraph (lines : List Bytes) : Bytes :=
  if lines.isEmpty then [] else utf8 "\n" ++ lines.flatten

/-- The script before its escaping. -/
def source (states : List StateDeclaration) (ws : List Wiring) : Bytes :=
  opening ++ (states.map initialization).flatten ++ functions ++ paragraph (ws.map wiring)
    ++ paragraph (states.map refresh) ++ closing

/-- The script for states and wirings, if one is needed. -/
def text? (states : List StateDeclaration) (ws : List Wiring) : Option Bytes :=
  if states.isEmpty && ws.isEmpty then none else some (escape (source states ws))

end Script

end LiveMarkup

import LiveMarkup.Diagnostic
import LiveMarkup.Tree.Node

/-!
# Attribute lists

The entries of an attribute list are separated by commas outside quotes and brackets. Most set an
attribute; `class` and `style` go to the classes and the style, and `on` adds a handler. A malformed
entry is reported and skipped.
-/

namespace LiveMarkup

/-- The attribute that marks the placeholder of a state. -/
def bindingMark : Bytes := utf8 "data-bind"

/-- The attribute that numbers the elements with handlers. -/
def handlerMark : Bytes := utf8 "data-on"

/-- Whether two keys are equal but for the case of ASCII letters. -/
def sameFolded (a b : Bytes) : Bool := a.map lowerOctet == b.map lowerOctet

/-- Whether a key is one that the generator uses itself. -/
def isReserved (key : Bytes) : Bool := sameFolded key bindingMark || sameFolded key handlerMark

/-- Whether a key has the form of a name. -/
def isKey : Bytes → Bool
  | [] => false
  | b :: r => (isAlphaOctet b || b == octet '_') && r.all isNameOctet

/-- An element to which a list is being applied, and what was wrong with the list so far. -/
structure Attributed where
  element : Element
  problems : List Problem := []
  deriving DecidableEq, Repr

namespace Attributed

/-- Records a problem. -/
def report (a : Attributed) (p : Problem) : Attributed := { a with problems := a.problems ++ [p] }

/-- The element with the handler that a value describes. -/
def addEvent (position : Position) (a : Attributed) (value : Bytes) : Attributed :=
  match EventValue.parse? value with
  | none => a.report (.malformedEntry value .noEvent)
  | some v =>
    let h : Handler :=
      { element := a.element.position
        event := v.event
        statement := Statement.ofBody v.body
        position }
    let b := { a with element := a.element.addHandler h }
    if h.isCompiled then b else b.report (.unsupportedStatement v.event h.statement.text)

/-- The element with the style that a value describes. -/
def addStyle (a : Attributed) (value : Bytes) : Attributed :=
  let parsed := Style.parseList (Quoted.value value)
  { element := a.element.addStyle parsed.1
    problems := a.problems ++ parsed.2.map Problem.malformedStyle }

/-- The element with an entry whose key and value are known. -/
def apply (position : Position) (a : Attributed) (key value : Bytes) : Attributed :=
  if key = utf8 "on" then a.addEvent position value
  else if key = utf8 "class" then
    { a with element := (Quoted.value value).words.foldl Element.addClass a.element }
  else if key = utf8 "style" then a.addStyle value
  else { a with element := a.element.setAttribute key (Quoted.value value) }

/-- The element with an entry of the list as written. A blank entry does not count. -/
def addEntry (position : Position) (a : Attributed) (written : Bytes) : Attributed :=
  let entry := written.trim
  if entry.isEmpty then a
  else if !Nesting.isBalanced entry then a.report (.malformedEntry entry .unbalanced)
  else
    match Nesting.cut? (octet ':') entry with
    | none => a.report (.malformedEntry entry .noValue)
    | some (before, after) =>
      let key := before.trim
      let value := after.trim
      if value.isEmpty then a.report (.malformedEntry entry .noValue)
      else if !isKey key then a.report (.malformedEntry entry .invalidKey)
      else if isReserved key then a.report (.reservedAttribute key)
      else a.apply position key value

/-- The element with all entries of a list; `position` is where the list starts. -/
def addList (position : Position) (e : Element) (list : Bytes) : Attributed :=
  (Nesting.split (octet ',') list).foldl (addEntry position) { element := e }

end Attributed

end LiveMarkup

import LiveMarkup.Expression.Parser
import LiveMarkup.Text.Blank
import LiveMarkup.Text.ScriptString

/-!
# Statements of event handlers

The body of a handler is one statement. An assignment of a literal, an increment or a decrement of a
state is compiled; anything else is kept as it is written and left to the browser.

`LiveMarkup.Statement.ofBody` compiles a body, and `LiveMarkup.Statement.valueExpression` is the
expression for the new value of the target, which the script and the expression language read alike.
-/

namespace LiveMarkup

/-! ### Literals and targets -/

/-- A literal: its text in one canonical form, and its value if it is an integer. -/
structure Literal where
  text : Bytes
  integer? : Option Int64 := none
  deriving DecidableEq, Repr

namespace Literal

/-- The literal for an integer. -/
def ofInt (n : Int64) : Literal := ⟨decimalInt n.toInt, some n⟩

/-- The literal for a floating number. -/
def ofFloat (x : Float) : Literal := ⟨Decimal.ofFloat x, none⟩

/-- The literal for a text. -/
def ofString (s : Bytes) (form : StrayForm := .plain) : Literal := ⟨scriptString s form, none⟩

/-- The literal for a truth value. -/
def ofBool (b : Bool) : Literal := ⟨if b then utf8 "true" else utf8 "false", none⟩

/-- The literal that a term is: a number with at most one sign, a string or a truth value. -/
def ofTerm? (e : Expression.Term) (form : StrayForm := .plain) : Option Literal :=
  match e with
  | .int n | .unary .identity (.int n) => some (ofInt n)
  | .unary .negate (.int n) => some (ofInt (-n))
  | .float x | .unary .identity (.float x) => some (ofFloat x)
  | .unary .negate (.float x) => some (ofFloat (-x))
  | .string s => some (ofString s form)
  | .bool b => some (ofBool b)
  | _ => none

/-- The literal that a text is. -/
def parse? (s : Bytes) (form : StrayForm := .plain) : Option Literal :=
  (Expression.parse? s.trim).bind (ofTerm? · form)

end Literal

/-- The state that a term is the value of. -/
def targetOfTerm? : Expression.Term → Option Bytes
  | .access (.name x) (.string p) _ => if p = utf8 "value" then some x else none
  | _ => none

/-- The state that a text is the value of, as `count.value` is of `count`. -/
def parseTarget? (s : Bytes) : Option Bytes := (Expression.parse? s.trim).bind targetOfTerm?

/-! ### Statements -/

/-- What a statement does. -/
inductive Action
  /-- It is left to the browser. -/
  | raw
  | assign (target literal : Bytes)
  | increment (target : Bytes) (delta : Int64)
  | decrement (target : Bytes) (delta : Int64)
  deriving DecidableEq, Repr

namespace Action

/-- The name of the kind of an action. -/
def kindName : Action → Bytes
  | .raw => utf8 "raw"
  | .assign _ _ => utf8 "assign"
  | .increment _ _ => utf8 "increment"
  | .decrement _ _ => utf8 "decrement"

/-- The name of the kind of action with a number, also of one that there is not. -/
def codeName (n : Int) : Bytes :=
  if n = 0 then utf8 "raw"
  else if n = 1 then utf8 "assign"
  else if n = 2 then utf8 "increment"
  else if n = 3 then utf8 "decrement"
  else utf8 "StatementKind(" ++ decimalInt n ++ utf8 ")"

/-- The state that an action changes. -/
def target? : Action → Option Bytes
  | .raw => none
  | .assign t _ | .increment t _ | .decrement t _ => some t

/-- The expression that reads a state. -/
def stateReference (name : Bytes) : Bytes := utf8 "state[" ++ scriptString name ++ utf8 "]"

/-- The expression for the new value of the target. -/
def valueExpression : Action → Bytes
  | .raw => []
  | .assign _ literal => literal
  | .increment t d => stateReference t ++ utf8 " + " ++ decimalInt d.toInt
  | .decrement t d => stateReference t ++ utf8 " - " ++ decimalInt d.toInt

end Action

/-- A statement: what it does, and its text without white space around it. -/
structure Statement where
  action : Action
  text : Bytes
  deriving DecidableEq, Repr

/-- The operator of a statement. -/
inductive Assignment
  | set | add | subtract
  deriving DecidableEq, Repr

namespace Statement

/-- The operator at the start of a text, after white space, and what follows it and its white space.
-/
def operator? (s : Bytes) : Option (Assignment × Bytes) :=
  let t := s.dropWhile isPatternBlank
  let found : Option (Assignment × Bytes) :=
    match Bytes.after? (utf8 "+=") t with
    | some r => some (.add, r)
    | none =>
      match Bytes.after? (utf8 "-=") t with
      | some r => some (.subtract, r)
      | none => (Bytes.after? (utf8 "=") t).map fun r => (.set, r)
  match found with
  | none => none
  | some (op, r) =>
    let operand := r.dropWhile isPatternBlank
    if operand.isEmpty then none else some (op, operand)

/-- What stands before the first operator, the operator and its operand. Something has to stand
before the operator. -/
def split? : Bytes → Option (Bytes × Assignment × Bytes)
  | [] => none
  | b :: r =>
    match operator? r with
    | some (op, operand) => some ([b], op, operand)
    | none => (split? r).map fun (before, op, operand) => (b :: before, op, operand)

/-- What an operator between a target and a literal does, if it does something. -/
def actionOf? (target : Bytes) (op : Assignment) (l : Literal) : Option Action :=
  match op, l.integer? with
  | .set, _ => some (.assign target l.text)
  | .add, some d => some (.increment target d)
  | .subtract, some d => some (.decrement target d)
  | _, none => none

/-- The action that a body is. -/
def action? (body : Bytes) : Option Action :=
  match split? body with
  | none => none
  | some (before, op, operand) =>
    match parseTarget? before, Literal.parse? operand with
    | some target, some l => actionOf? target op l
    | _, _ => none

/-- The text without one semicolon at its end. -/
def dropSemicolon (s : Bytes) : Bytes :=
  if s.getLast? = some (octet ';') then s.dropLast else s

/-- The statement that the body of a handler is. -/
def ofBody (body : Bytes) : Statement :=
  let text := (dropSemicolon body.trim).trim
  ⟨(action? text).getD .raw, text⟩

/-- Whether the statement is carried out by the script. -/
def isCompiled (s : Statement) : Bool := s.action ≠ .raw

/-- The expression for the new value of the target. -/
def valueExpression (s : Statement) : Bytes := s.action.valueExpression

end Statement

/-! ### The value of a handler entry -/

/-- An event and the body of its handler, as in `click { … }`. -/
structure EventValue where
  event : Bytes
  body : Bytes
  deriving DecidableEq, Repr

namespace EventValue

/-- The event and the body that a value is: a name, a brace, and a brace at the end. The event is in
small letters. -/
def parse? (s : Bytes) : Option EventValue :=
  match s.trim with
  | [] => none
  | b :: r =>
    if isAlphaOctet b then
      match (r.dropWhile isNameOctet).dropWhile isPatternBlank with
      | [] => none
      | c :: t =>
        if c = 0x7b ∧ t.getLast? = some 0x7d then
          some ⟨(b :: r.takeWhile isNameOctet).map lowerOctet, t.dropLast⟩
        else none
    else none

end EventValue

end LiveMarkup

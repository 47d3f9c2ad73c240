import LiveMarkup.Expression.Fold
import LiveMarkup.Expression.Parser
import LiveMarkup.Expression.Pool
import LiveMarkup.Expression.Resolve
import LiveMarkup.Expression.Value

/-!
# Evaluation

A text is compiled to a term (`LiveMarkup.Expression.compile?`): it is parsed, its kinds are
resolved, its constants are worked out and its literals are kept once. The term is evaluated over a
state record by recursion (`LiveMarkup.Expression.run?`). Every way to fail gives `none`.

This is the part of the language without regular expressions, functions and library calls other than
`len`: these are parsed, but they have no value here. What uses expressions is defined over any
`LiveMarkup.Evaluator`, of which `LiveMarkup.evaluator` is the one for this part.

An evaluation has limited room: the lists, records and ranges that it makes must not have
`LiveMarkup.Expression.roomLimit` items together, whether they are part of the result or not.
-/

namespace LiveMarkup

namespace Expression

/-- Why an evaluation has no value. -/
inductive Stop
  /-- An optional access to nothing: the enclosing chain is nothing. -/
  | absent
  /-- An operand that its operator does not take, a missing item, or no room. -/
  | fault
  deriving DecidableEq, Repr

/-! ### Room -/

/-- What an evaluation has used up. -/
structure Usage where
  /-- How many items the lists, records and ranges have that were made. -/
  room : Nat := 0
  /-- The last number that was given to a list or a record. -/
  number : Nat := 0

/-- An evaluation: it uses things up and gives a value, or a reason why there is none. -/
abbrev Evaluation := ExceptT Stop (StateM Usage)

/-- How many items are too many. -/
def roomLimit : Nat := 1000000

/-- Takes room for a number of items. -/
def takeRoom (items : Nat) : Evaluation Unit := do
  modify fun u => { u with room := u.room + items }
  if roomLimit ≤ (← get).room then throw .fault

/-- The origin of a list or a record that is new. -/
def newOrigin : Evaluation Origin := do
  modify fun u => { u with number := u.number + 1 }
  return ⟨.evaluation (← get).number, 0⟩

/-- The value that an option holds, or a fault. -/
def required {α : Type} : Option α → Evaluation α
  | some a => pure a
  | none => throw .fault

/-! ### Operators on values -/

/-- An arithmetic operator: `ints` on two integers, and `floats` on the amounts of numbers of which
one is not an integer. -/
def arithmetic (ints : Int64 → Int64 → Value) (floats : Float → Float → Float)
    (a b : Value) : Option Value :=
  match a.widened, b.widened with
  | .int x, .int y => some (ints x y)
  | a, b =>
    match a.toFloat?, b.toFloat? with
    | some x, some y => some (.float (floats x y))
    | _, _ => none

/-- An order comparison of two numbers or two texts. -/
def compared (ints : Int64 → Int64 → Bool) (floats : Float → Float → Bool)
    (strings : Bytes → Bytes → Bool) (a b : Value) : Option Value :=
  match a.widened, b.widened with
  | .int x, .int y => some (.bool (ints x y))
  | .string x, .string y => some (.bool (strings x y))
  | a, b =>
    match a.toFloat?, b.toFloat? with
    | some x, some y => some (.bool (floats x y))
    | _, _ => none

/-- A test of two texts. -/
def texts (test : Bytes → Bytes → Bool) : Value → Value → Option Value
  | .string a, .string b => some (.bool (test a b))
  | _, _ => none

/-- Whether a record has a field with a value as its name. -/
def hasField (needle : Value) (fields : Fields Value) : Option Value :=
  needle.toName?.map fun k => .bool (Fields.get? k fields).isSome

/-- Whether a value is in a container: an item of a list or a name of a field. -/
def isIn (state : Fields Value) (needle : Value) : Value → Option Value
  | .null => some (.bool false)
  | .list items _ => some (.bool (items.any fun v => Value.equals state v needle))
  | .span items => some (.bool (items.any fun n => Value.equals state (.int n) needle))
  | .record fields _ => hasField needle fields
  | .state => hasField needle state
  | _ => none

/-- How many integers there are from `a` to `b`. -/
def rangeSize (a b : Int64) : Nat := (b - a + 1).toInt.toNat

/-- The integers from `a` to `b`. -/
def range (a b : Int64) : List Int64 :=
  (List.range (rangeSize a b)).map fun i => a + Int64.ofNat i

/-- The value of an operator whose operands are always evaluated. -/
def binaryValue (state : Fields Value) (op : BinaryOp) (a b : Value) : Option Value :=
  match op with
  | .equal => some (.bool (Value.equals state a b))
  | .unequal => some (.bool (!Value.equals state a b))
  | .sameInt =>
    match a, b with
    | .int x, .int y => some (.bool (x == y))
    | _, _ => none
  | .sameString =>
    match a, b with
    | .string x, .string y => some (.bool (x == y))
    | _, _ => none
  | .less => compared (· < ·) (· < ·) Bytes.before a b
  | .greater => compared (· > ·) (· > ·) (fun x y => y.before x) a b
  | .lessEqual => compared (· ≤ ·) (· ≤ ·) (fun x y => !y.before x) a b
  | .greaterEqual => compared (· ≥ ·) (· ≥ ·) (fun x y => !x.before y) a b
  | .isIn | .inRange => isIn state a b
  | .inInts =>
    match a with
    | .null => isIn state (.int 0) b
    | .int _ => isIn state a b
    | _ => none
  | .inStrings =>
    match a.toName? with
    | some s => isIn state (.string s) b
    | none => none
  | .contains => texts (fun x y => Bytes.contains y x) a b
  | .startsWith => texts (fun x y => (Bytes.after? y x).isSome) a b
  | .endsWith => texts (fun x y => (Bytes.after? y.reverse x.reverse).isSome) a b
  | .add =>
    match a, b with
    | .string x, .string y => some (.string (x ++ y))
    | a, b => arithmetic (fun x y => .int (x + y)) (· + ·) a b
  | .subtract => arithmetic (fun x y => .int (x - y)) (· - ·) a b
  | .multiply => arithmetic (fun x y => .int (x * y)) (· * ·) a b
  | .divide => arithmetic (fun x y => .float (x.toFloat / y.toFloat)) (· / ·) a b
  | .power => arithmetic (fun x y => .float (Power.power x.toFloat y.toFloat)) Power.power a b
  | .modulo =>
    match a.widened, b.widened with
    | .int x, .int y => if y = 0 then none else some (.int (x % y))
    | _, _ => none
  | .or | .and | .coalesce | .range | .matching => none

/-- The value of an operator on one operand. -/
def unaryValue (op : UnaryOp) (a : Value) : Option Value :=
  match op, a with
  | .not, .bool b => some (.bool !b)
  | .negate, .int n => some (.int (-n))
  | .negate, .octet b => some (.octet (-b))
  | .negate, .float x => some (.float (-x))
  | .identity, a => some a
  | _, _ => none

/-! ### Parts of containers -/

/-- The item of a list at an index, which counts from the end if it is negative. -/
def itemAt? {α : Type} (items : List α) (i : Int64) : Option α :=
  let j := if i < 0 then i.toInt + items.length else i.toInt
  if j < 0 then none else items[j.toNat]?

/-- A field of a record. A record has nothing under a name that it does not have. -/
def field? (fields : Fields Value) (key : Value) : Option Value :=
  key.toName?.map fun k => (Fields.get? k fields).getD .null

/-- A part of a list, a record or a text. -/
def part? (state : Fields Value) (base key : Value) : Option Value :=
  match base with
  | .record fields _ => field? fields key
  | .state => field? state key
  | .list items _ => key.toIndex?.bind (itemAt? items)
  | .span items => (key.toIndex?.bind (itemAt? items)).map .int
  | .string s => (key.toIndex?.bind (itemAt? s)).map .octet
  | _ => none

/-- The place of an index in a list of `size` items. A negative index counts from the end, and one
before the start is the start. -/
def placeOf (size : Nat) (i : Int64) : Nat :=
  if i < 0 then (i.toInt + size).toNat else i.toInt.toNat

/-- Where a slice from `low` up to `high` ends: not after the last item. -/
def sliceEnd (size : Nat) (high : Int64) : Nat := min (placeOf size high) size

/-- Where a slice from `low` up to `high` starts: not after its end. -/
def sliceStart (size : Nat) (low high : Int64) : Nat := min (placeOf size low) (sliceEnd size high)

/-- The items from one index up to another. -/
def cut {α : Type} (items : List α) (low high : Int64) : List α :=
  (items.take (sliceEnd items.length high)).drop (sliceStart items.length low high)

/-- A slice of a list or a text. -/
def slice? (base low high : Value) : Option Value :=
  match low.toIndex?, high.toIndex? with
  | some l, some h =>
    match base with
    | .list items o =>
      some (.list (cut items l h) { o with offset := o.offset + sliceStart items.length l h })
    | .span items => some (.span (cut items l h))
    | .string s => some (.string (cut s l h))
    | _ => none
  | _, _ => none

/-- The length of a list, a record or a text. -/
def length? (state : Fields Value) : Value → Option Value
  | .list items _ => some (.int (Int64.ofNat items.length))
  | .span items => some (.int (Int64.ofNat items.length))
  | .record fields _ => some (.int (Int64.ofNat fields.length))
  | .state => some (.int (Int64.ofNat state.length))
  | .string s => some (.int (Int64.ofNat s.length))
  | _ => none

/-! ### Terms -/

/-- What names refer to: the state record and the local definitions. -/
structure Environment where
  /-- The text that is evaluated. -/
  code : Bytes
  state : Fields Value
  locals : Fields Value := []

namespace Environment

/-- The value of a name. A name that refers to nothing is nothing. -/
def lookup (env : Environment) (x : Bytes) : Value :=
  match Fields.get? x env.locals with
  | some v => v
  | none =>
    if x = utf8 "state" then .state
    else if x = utf8 "$env" then .record [(utf8 "state", .state)] ⟨.scope, 0⟩
    else .null

end Environment

mutual

/-- The value of a term. -/
def eval (env : Environment) : Term → Evaluation Value
  | .null => pure .null
  | .bool b => pure (.bool b)
  | .int n => pure (.int n)
  | .float x => pure (.float x)
  | .string s => pure (.string s)
  | .name x => pure (env.lookup x)
  | .unary op e => do
    let v ← eval env e
    required (unaryValue op v)
  | .binary .and l r => do
    match ← eval env l with
    | .bool true => eval env r
    | .bool false => pure (.bool false)
    | _ => throw .fault
  | .binary .or l r => do
    match ← eval env l with
    | .bool true => pure (.bool true)
    | .bool false => eval env r
    | _ => throw .fault
  | .binary .coalesce l r => do
    match ← eval env l with
    | .null => eval env r
    | v => pure v
  | .binary .range l r => do
    let a ← eval env l
    let b ← eval env r
    let x ← required a.toIndex?
    let y ← required b.toIndex?
    takeRoom (rangeSize x y)
    pure (.span (range x y))
  | .binary op l r => do
    let a ← eval env l
    let b ← eval env r
    required (binaryValue env.state op a b)
  | .access base key optional => do
    match ← eval env base with
    | .null => throw (if optional then .absent else .fault)
    | b =>
      let k ← eval env key
      required (part? env.state b k)
  | .chain e =>
    tryCatch (eval env e) fun
      | .absent => pure .null
      | .fault => throw .fault
  | .slice base low high => do
    let b ← eval env base
    let h ← eval env high
    let l ← eval env low
    required (slice? b l h)
  | .sliceFrom base low => do
    let b ← eval env base
    let h ← required (length? env.state b)
    let l ← eval env low
    required (slice? b l h)
  | .choice c yes no => do
    match ← eval env c with
    | .bool true => eval env yes
    | .bool false => eval env no
    | _ => throw .fault
  | .list items => do
    let vs ← evalAll env items
    takeRoom vs.length
    return .list vs (← newOrigin)
  | .constant number items => do
    let vs ← evalAll env items
    pure (.list vs ⟨.literal env.code number, 0⟩)
  | .record entries => do
    let fs ← evalEntries env entries
    takeRoom entries.length
    return .record fs (← newOrigin)
  | .length arguments => do
    match ← evalAll env arguments with
    | [v] => required (length? env.state v)
    | _ => throw .fault
  | .call callee arguments => do
    let _ ← evalAll env arguments
    let _ ← eval env callee
    throw .fault
  | .letIn x value body => do
    let v ← eval env value
    eval { env with locals := (x, v) :: env.locals } body

/-- The values of a list of terms. -/
def evalAll (env : Environment) : List Term → Evaluation (List Value)
  | [] => pure []
  | e :: es => do
    let v ← eval env e
    let vs ← evalAll env es
    pure (v :: vs)

/-- The fields of a record. Of two entries of one name the first counts. -/
def evalEntries (env : Environment) : List (Term × Term) → Evaluation (Fields Value)
  | [] => pure []
  | (k, e) :: es => do
    let key ← eval env k
    let v ← eval env e
    let fs ← evalEntries env es
    match key with
    | .string k' => pure (Fields.insert k' v fs)
    | _ => throw .fault

end

/-- The term that a text is evaluated by: parsed, resolved, worked out and pooled. -/
def compile? (code : Bytes) : Option Term :=
  match parse? code with
  | none => none
  | some e =>
    match resolve? [] e with
    | none => none
    | some e' => (fold? e'.2).map pooled

/-- The value of the term of a text over a state record. New lists and records get numbers that
nothing in the state has. -/
def run? (code : Bytes) (t : Term) (state : Fields Value) : Option Value :=
  match (eval { code, state } t { number := Value.newestOfFields state }).1 with
  | .ok v => some v
  | .error _ => none

end Expression

/-! ### Evaluators -/

/-- What evaluates expressions. Its values may refer to the state record, as the value of the
expression `state` does, so running a program has the record as it is then. -/
structure Evaluator where
  Program : Type
  Value : Type
  /-- The value of a constant. -/
  constant : Constant → Value
  /-- The integer that a value counts as in sums and differences. -/
  integer? : Value → Option Int64
  /-- The program that a text is compiled to. -/
  compile? : Bytes → Option Program
  /-- The value of a program over a state record. -/
  run? : Program → Fields Value → Option Value

/-- The value of a text over a state record. -/
def Evaluator.evaluate? (E : Evaluator) (state : Fields E.Value) (code : Bytes) : Option E.Value :=
  (E.compile? code).bind (E.run? · state)

/-- The evaluator of the expression language. A program is a text with the term it is evaluated
by. -/
@[reducible] def evaluator : Evaluator where
  Program := Bytes × Expression.Term
  Value := Value
  constant := Value.ofConstant
  integer? := Value.integer?
  compile? code := (Expression.compile? code).map (code, ·)
  run? p state := Expression.run? p.1 p.2 state

end LiveMarkup

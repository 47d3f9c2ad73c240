import LiveMarkup.Expression.Term
import LiveMarkup.Number.Power

/-!
# Constants worked out in advance

Operators on literals are replaced by their results before an expression is evaluated, a literal
truth value next to `and` or `or` is dropped or decides the result, and membership of an integer in
a literal range becomes two comparisons. A literal remainder by zero makes the whole expression
invalid, even where it would not be evaluated.

The kind of a remainder is forgotten when it is worked out, so the operators around it are the
general ones again.
-/

namespace LiveMarkup

namespace Expression

/-- An expression with its constants worked out. -/
structure Folded where
  term : Term
  /-- Whether the kind that was found for the expression still counts. -/
  known : Bool := true

/-- The amount of a number literal. -/
def Term.amount? : Term → Option Float
  | .int a => some a.toFloat
  | .float a => some a
  | _ => none

/-- An operator on two numbers: `ints` is its result on integers and `floats` on the amounts of
numbers of which one is not an integer. -/
def foldNumbers (op : BinaryOp) (ints : Int64 → Int64 → Term) (floats : Float → Float → Float)
    (l r : Term) : Term :=
  match l, r with
  | .int a, .int b => ints a b
  | l, r =>
    match l.amount?, r.amount? with
    | some a, some b => .float (floats a b)
    | _, _ => .binary op l r

/-- A conjunction (for `unit` true) or a disjunction (for `unit` false) with a literal operand. A
unit is dropped, and its opposite decides the result. -/
def foldLogic (op : BinaryOp) (unit : Bool) (l r : Term) : Term :=
  match l, r with
  | .bool a, r => if a = unit then r else .bool a
  | l, .bool b => if b = unit then l else .bool b
  | l, r => .binary op l r

/-- An equality of two literals of one kind. -/
def foldEqual (op : BinaryOp) (l r : Term) : Term :=
  match l, r with
  | .int a, .int b => .bool (a == b)
  | .string a, .string b => .bool (a == b)
  | .bool a, .bool b => .bool (a == b)
  | l, r => .binary op l r

/-- Membership of an integer in a range. In a literal range it is two comparisons. -/
def foldInRange (known : Bool) (l r : Term) : Term :=
  match known, r with
  | true, .binary .range (.int a) (.int b) =>
    .binary .and (.binary .greaterEqual l (.int a)) (.binary .lessEqual l (.int b))
  | _, r => .binary .isIn l r

/-- An operator on two operands that are worked out already. -/
def foldBinary? (op : BinaryOp) (left right : Folded) : Option Folded :=
  let l := left.term
  let r := right.term
  match op with
  | .add =>
    match l, r with
    | .string a, .string b => some ⟨.string (a ++ b), true⟩
    | l, r => some ⟨foldNumbers .add (fun a b => .int (a + b)) (· + ·) l r, true⟩
  | .subtract => some ⟨foldNumbers .subtract (fun a b => .int (a - b)) (· - ·) l r, true⟩
  | .multiply => some ⟨foldNumbers .multiply (fun a b => .int (a * b)) (· * ·) l r, true⟩
  | .divide =>
    some ⟨foldNumbers .divide (fun a b => .float (a.toFloat / b.toFloat)) (· / ·) l r, true⟩
  | .power =>
    let ints (a b : Int64) : Term := .float (Power.power a.toFloat b.toFloat)
    some ⟨foldNumbers .power ints Power.power l r, true⟩
  | .modulo =>
    match l, r with
    | .int a, .int b => if b = 0 then none else some ⟨.int (a % b), false⟩
    | l, r => some ⟨.binary .modulo l r, true⟩
  | .and => some ⟨foldLogic .and true l r, true⟩
  | .or => some ⟨foldLogic .or false l r, true⟩
  | .equal => some ⟨foldEqual .equal l r, true⟩
  | .sameInt | .sameString =>
    some ⟨foldEqual (if left.known && right.known then op else .equal) l r, true⟩
  | .inRange => some ⟨foldInRange left.known l r, true⟩
  | op => some ⟨.binary op l r, true⟩

/-- An operator on an operand that is worked out already. -/
def foldUnary (op : UnaryOp) (e : Term) : Term :=
  match op, e with
  | .negate, .int a => .int (-a)
  | .negate, .float a => .float (-a)
  | .identity, .int a => .int a
  | .identity, .float a => .float a
  | .not, .bool b => .bool !b
  | op, e => .unary op e

mutual

/-- An expression with its constants worked out, and whether its kind still counts. -/
def foldKnown? : Term → Option Folded
  | .unary op e =>
    match foldKnown? e with
    | some e' => some ⟨foldUnary op e'.term, true⟩
    | none => none
  | .binary op l r =>
    match foldKnown? l, foldKnown? r with
    | some l', some r' => foldBinary? op l' r'
    | _, _ => none
  | .access base key optional =>
    match foldKnown? base, foldKnown? key with
    | some b, some k => some ⟨.access b.term k.term optional, true⟩
    | _, _ => none
  | .chain e =>
    match foldKnown? e with
    | some e' => some ⟨.chain e'.term, true⟩
    | none => none
  | .slice base low high =>
    match foldKnown? base, foldKnown? low, foldKnown? high with
    | some b, some l, some h => some ⟨.slice b.term l.term h.term, true⟩
    | _, _, _ => none
  | .sliceFrom base low =>
    match foldKnown? base, foldKnown? low with
    | some b, some l => some ⟨.sliceFrom b.term l.term, true⟩
    | _, _ => none
  | .choice c yes no =>
    match foldKnown? c, foldKnown? yes, foldKnown? no with
    | some c', some y, some n => some ⟨.choice c'.term y.term n.term, true⟩
    | _, _, _ => none
  | .list items =>
    match foldAll? items with
    | some es => some ⟨.list es, true⟩
    | none => none
  | .record entries =>
    match foldEntries? entries with
    | some es => some ⟨.record es, true⟩
    | none => none
  | .length arguments =>
    match foldAll? arguments with
    | some es => some ⟨.length es, true⟩
    | none => none
  | .call callee arguments =>
    match foldKnown? callee, foldAll? arguments with
    | some c, some es => some ⟨.call c.term es, true⟩
    | _, _ => none
  | .letIn x value body =>
    match foldKnown? value, foldKnown? body with
    | some v, some b => some ⟨.letIn x v.term b.term, true⟩
    | _, _ => none
  | e => some ⟨e, true⟩

/-- A list of expressions with their constants worked out. -/
def foldAll? : List Term → Option (List Term)
  | [] => some []
  | e :: es =>
    match foldKnown? e, foldAll? es with
    | some e', some es' => some (e'.term :: es')
    | _, _ => none

/-- The entries of a record with their constants worked out. -/
def foldEntries? : List (Term × Term) → Option (List (Term × Term))
  | [] => some []
  | (k, e) :: es =>
    match foldKnown? k, foldKnown? e, foldEntries? es with
    | some k', some e', some es' => some ((k'.term, e'.term) :: es')
    | _, _, _ => none

end

/-- An expression with its constants worked out. -/
def fold? (e : Term) : Option Term := (foldKnown? e).map Folded.term

end Expression

end LiveMarkup

import LiveMarkup.Text.Bytes

/-!
# Expressions

The abstract form of an expression: literals, names, operators, access to the parts of lists and
records, choices, local definitions and calls. Precedence and brackets are gone; what is left is
what evaluation needs.
-/

namespace LiveMarkup

namespace Expression

/-- Operators in front of one operand. -/
inductive UnaryOp
  | not | negate | identity
  deriving DecidableEq, Repr

/-- Operators between two operands. The last five are not written: resolution chooses them where the
kinds of the operands are known. -/
inductive BinaryOp
  | or | and | equal | unequal | less | greater | lessEqual | greaterEqual | isIn | matching
  | contains | startsWith | endsWith | range | add | subtract | multiply | divide | modulo
  | power | coalesce
  /-- Equality of two integers, and of nothing else. -/
  | sameInt
  /-- Equality of two texts, and of nothing else. -/
  | sameString
  /-- Membership of an integer in a list of integer literals. -/
  | inInts
  /-- Membership of a text in a list of string literals. -/
  | inStrings
  /-- Membership of an integer in a range. -/
  | inRange
  deriving DecidableEq, Repr

/-- An expression. -/
inductive Term
  | null
  | bool (value : Bool)
  | int (value : Int64)
  | float (value : Float)
  | string (value : Bytes)
  /-- A name: a local definition, the state record, or nothing. -/
  | name (name : Bytes)
  | unary (op : UnaryOp) (operand : Term)
  | binary (op : BinaryOp) (left right : Term)
  /-- A part of a list or a record. An `optional` access to nothing gives nothing for the whole
  enclosing chain. -/
  | access (base key : Term) (optional : Bool)
  /-- The extent of optional accesses. -/
  | chain (term : Term)
  /-- The part of a list or a text from one index up to another. -/
  | slice (base low high : Term)
  /-- The part of a list or a text from an index on. -/
  | sliceFrom (base low : Term)
  | choice (condition yes no : Term)
  | list (items : List Term)
  /-- A list of literals, which is made once, with its number among those of the expression. -/
  | constant (number : Nat) (items : List Term)
  | record (entries : List (Term × Term))
  /-- The length of a list, a record or a text, given as the only argument. -/
  | length (arguments : List Term)
  | call (callee : Term) (arguments : List Term)
  | letIn (name : Bytes) (value body : Term)

/-- How tightly an operator binds its operands. -/
def BinaryOp.precedence : BinaryOp → Nat
  | .or => 10
  | .and => 15
  | .equal | .unequal | .less | .greater | .lessEqual | .greaterEqual | .isIn | .matching
  | .contains | .startsWith | .endsWith | .sameInt | .sameString | .inInts | .inStrings
  | .inRange => 20
  | .range => 25
  | .add | .subtract => 30
  | .multiply | .divide | .modulo => 60
  | .power => 100
  | .coalesce => 500

/-- The precedence at which the right operand is read: the power groups to the right, all others to
the left. -/
def BinaryOp.rightPrecedence (op : BinaryOp) : Nat :=
  if op = .power then op.precedence else op.precedence + 1

/-- The four order comparisons, which can be chained: `a < b < c` means `a < b` and `b < c`. -/
def BinaryOp.isComparison : BinaryOp → Bool
  | .less | .greater | .lessEqual | .greaterEqual => true
  | _ => false

/-- How tightly an operator binds its operand. -/
def UnaryOp.precedence : UnaryOp → Nat
  | .not => 50
  | .negate | .identity => 90

end Expression

end LiveMarkup

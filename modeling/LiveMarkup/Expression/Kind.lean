import LiveMarkup.Expression.Term
import LiveMarkup.Text.Fields

/-!
# Kinds and resolution

Before an expression is evaluated, the kinds of its parts are worked out, as far as they can be
known without the state, and an expression with operands of the wrong kind is refused as a whole.
`LiveMarkup.Expression.resolve?` does this; the expression it returns has the operators that the
known kinds allow in place of the general ones.
-/

namespace LiveMarkup

namespace Expression

/-- What is known of the values of an expression. -/
inductive Kind
  | null | any | bool | int | float | string | list
  /-- A list of integers made by a range. -/
  | span
  | record | function
  deriving DecidableEq, Repr

namespace Kind

/-- Whether the values are numbers. -/
def isNumber (k : Kind) : Bool := k == .int || k == .float

/-- Whether the values are numbers or texts, which have an order. -/
def isOrdered (k : Kind) : Bool := k.isNumber || k == .string

/-- Whether the values are lists of either make. -/
def isSequence (k : Kind) : Bool := k == .list || k == .span

/-- Whether values of two kinds may be compared for equality. -/
def comparable (a b : Kind) : Bool :=
  a == b || (a.isSequence && b.isSequence) || (a.isNumber && b.isNumber)
    || a == .null || b == .null || a == .any || b == .any

/-- Whether two operands may be of a class of kinds, at least one of them being of unknown kind. -/
def either (f : Kind → Bool) (a b : Kind) : Bool :=
  (a == .any && (b == .any || f b)) || (b == .any && f a)

/-- Whether two operands are of a class of kinds, or may be. -/
def both (f : Kind → Bool) (a b : Kind) : Bool := (f a && f b) || either f a b

/-- The kind of a number made of two. -/
def combined (a b : Kind) : Kind := if a == .float || b == .float then .float else .int

/-- The kind of either of two alternatives. A known kind wins over an unknown one if it comes
first. -/
def join (a b : Kind) : Kind :=
  if a == .null then b
  else if b == .null || a == b || b == .any then a
  else .any

/-- The kind of a value that may be replaced by another one if it is nothing. -/
def replaced (a b : Kind) : Kind :=
  if a == .null then b
  else if b == .null || a == b then a
  else .any

end Kind

/-- The kind of an expression, and the kind of all items of a list if they have one. -/
structure Shape where
  kind : Kind
  item : Option Kind := none

/-- The kind of the result of an operator other than membership. -/
def binaryKind? (op : BinaryOp) (l r : Kind) : Option Kind :=
  let bool? (c : Bool) : Option Kind := if c then some .bool else none
  match op with
  | .or | .and => bool? (Kind.both (· == .bool) l r)
  | .equal | .unequal | .sameInt | .sameString => bool? (Kind.comparable l r)
  | .less | .greater | .lessEqual | .greaterEqual =>
    bool? (l.isNumber && r.isNumber || l == .string && r == .string
      || Kind.either Kind.isOrdered l r)
  | .matching | .contains | .startsWith | .endsWith => bool? (Kind.both (· == .string) l r)
  | .isIn | .inInts | .inStrings | .inRange => some .bool
  | .range => if Kind.both (· == .int) l r then some .span else none
  | .add =>
    if l.isNumber && r.isNumber then some (Kind.combined l r)
    else if l == .string && r == .string then some .string
    else if Kind.either Kind.isOrdered l r then some .any
    else none
  | .subtract | .multiply =>
    if l.isNumber && r.isNumber then some (Kind.combined l r)
    else if Kind.either Kind.isNumber l r then some .any
    else none
  | .divide | .power => if Kind.both Kind.isNumber l r then some .float else none
  | .modulo =>
    if l == .int && r == .int then some .int
    else if Kind.either (· == .int) l r then some .any
    else none
  | .coalesce => some (Kind.replaced l r)

/-- Whether a value of the kind `l` may be looked for in a container. -/
def mayContain (l : Kind) (r : Shape) : Bool :=
  match r.kind with
  | .record => l == .null || l == .any || l == .string
  | .list => r.item.all (Kind.comparable l)
  | .span => Kind.comparable l .int
  | .any => true
  | .string => l == .any
  | _ => false

/-- Whether a term is an integer literal. -/
def Term.isInt : Term → Bool
  | .int _ => true
  | _ => false

/-- Whether a term is a string literal. -/
def Term.isString : Term → Bool
  | .string _ => true
  | _ => false

/-- Equality with the operator that the kinds allow. -/
def resolvedEqual (l r : Kind) (left right : Term) : Term :=
  if l == .int && r == .int then .binary .sameInt left right
  else if l == .string && r == .string then .binary .sameString left right
  else .binary .equal left right

/-- Membership with the operator that the kinds and the literals of the container, as written,
allow.
-/
def resolvedIn (l : Kind) (left written right : Term) : Term :=
  match written with
  | .list items =>
    if items.isEmpty then .binary .isIn left right
    else if l == .int && items.all Term.isInt then .binary .inInts left right
    else if items.all Term.isString then .binary .inStrings left right
    else .binary .isIn left right
  | .binary .range _ _ =>
    if l == .int then .binary .inRange left right else .binary .isIn left right
  | _ => .binary .isIn left right

/-- The kind of all items of a list, if they have one. -/
def commonKind? : List Shape → Option Kind
  | [] => none
  | s :: r =>
    let alike (k : Kind) : Bool := k == s.kind || (k.isSequence && s.kind.isSequence)
    if r.isEmpty || (s.kind != .null && r.all fun t => alike t.kind) then
      (match s.kind with
        | .null => none
        | k => some k)
    else none

/-- The kind of a part of a container chosen by a key. -/
def accessKind? (base key : Kind) : Option Kind :=
  match base with
  | .any => some .any
  | .record => if key == .string || key == .any || key == .null then some .any else none
  | .list => if key == .int || key == .any then some .any else none
  | .span => if key == .int || key == .any then some .int else none
  | _ => none

/-- Whether a kind can be cut into slices. -/
def Kind.isSliceable (k : Kind) : Bool := k == .any || k == .string || k.isSequence

/-- Whether a kind has a length. -/
def Kind.hasLength (k : Kind) : Bool := k.isSliceable || k == .record

/-- Whether a kind can be an index. -/
def Kind.isIndex (k : Kind) : Bool := k == .int || k == .any

/-- Whether a kind can be a condition. -/
def Kind.isCondition (k : Kind) : Bool := k == .bool || k == .any

/-- The functions that expressions know. Their names cannot be defined anew. -/
def functionNames : List Bytes :=
  ["all", "none", "any", "one", "filter", "map", "find", "findIndex", "findLast",
    "findLastIndex", "count", "groupBy", "sortBy", "reduce", "len", "type", "abs", "ceil",
    "floor", "round", "int", "float", "string", "trim", "trimPrefix", "trimSuffix", "upper",
    "lower", "split", "splitAfter", "replace", "repeat", "join", "indexOf", "lastIndexOf",
    "hasPrefix", "hasSuffix", "max", "min", "sum", "mean", "median", "toJSON", "fromJSON",
    "toBase64", "fromBase64", "now", "duration", "date", "first", "last", "get", "take", "keys",
    "values", "toPairs", "fromPairs", "reverse", "concat", "sort", "bitand", "bitor", "bitxor",
    "bitnand", "bitnot", "bitshl", "bitshr", "bitushr"].map utf8

/-- The shape of a name. -/
def nameShape (scope : Fields Shape) (x : Bytes) : Shape :=
  match scope.find? (·.1 = x) with
  | some s => s.2
  | none => if x ∈ functionNames then ⟨.function, none⟩ else ⟨.any, none⟩

end Expression

end LiveMarkup

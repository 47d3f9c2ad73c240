import LiveMarkup.Text.Fields

/-!
# Values

What expressions evaluate to and what states hold: nothing, truth values, 64-bit integers, octets of
texts, floating numbers, texts, lists, ranges of integers, and records. One more value is the state
record itself. It has no fields of its own: what is in it is read from the state record of the time,
also if it was kept in a state before the record changed.

Two values are equal if they are numbers of the same amount, or if they are built alike from equal
parts (`LiveMarkup.Value.equals`). Inside lists and records numbers of different makes are never
equal. A list or a record is always equal to itself, even if it holds a floating number that is not;
so it carries its `LiveMarkup.Origin`, by which it is known again.
-/

namespace LiveMarkup

/-- What made a list or a record. -/
inductive Maker
  /-- No expression. What comes from outside is not known again. -/
  | outside
  /-- The record of everything that expressions see. -/
  | scope
  /-- A list of literals, by the text it is in and its number there. It is made once. -/
  | literal (code : Bytes) (number : Nat)
  /-- An evaluation, by a number that no other list or record has. -/
  | evaluation (number : Nat)
  deriving DecidableEq, Repr

/-- Where a list or a record comes from: what made it, and how many items were cut off in front. -/
structure Origin where
  maker : Maker := .outside
  offset : Nat := 0
  deriving DecidableEq, Repr

namespace Origin

/-- Whether two origins are known to be the same. -/
def same (a b : Origin) : Bool := a == b && a.maker != .outside

/-- The number given by an evaluation, or zero. -/
def number (o : Origin) : Nat :=
  match o.maker with
  | .evaluation n => n
  | _ => 0

end Origin

/-- What a literal stands for. -/
inductive Constant
  | null
  | bool (value : Bool)
  | int (value : Int64)
  | string (value : Bytes)
  deriving DecidableEq, Repr

/-- A value. -/
inductive Value
  | null
  | bool (value : Bool)
  | int (value : Int64)
  /-- An octet of a text. It counts as an integer, but it is of another make. -/
  | octet (value : UInt8)
  | float (value : Float)
  | string (value : Bytes)
  | list (items : List Value) (origin : Origin := {})
  /-- The integers of a range, which are a list of another make. -/
  | span (items : List Int64)
  /-- A record, its fields in the order of their names. -/
  | record (fields : List (Bytes × Value)) (origin : Origin := {})
  /-- The state record. -/
  | state
  deriving Inhabited

namespace Value

/-- The value of a constant. -/
def ofConstant : Constant → Value
  | .null => .null
  | .bool b => .bool b
  | .int n => .int n
  | .string s => .string s

mutual

/-- The number of parts of a value. -/
def size : Value → Nat
  | .list items _ => 1 + sizeOfAll items
  | .record fields _ => 1 + sizeOfFields fields
  | _ => 1

/-- The number of parts of a list of values. -/
def sizeOfAll : List Value → Nat
  | [] => 0
  | v :: vs => size v + sizeOfAll vs

/-- The number of parts of the values of fields. -/
def sizeOfFields : List (Bytes × Value) → Nat
  | [] => 0
  | (_, v) :: fs => size v + sizeOfFields fs

end

/-- Whether two values are built alike from equal parts, down to a depth. Two lists of one origin
and one length have the same items, and two records of one origin the same fields. -/
def alike (state : List (Bytes × Value)) : Nat → Value → Value → Bool
  | 0, _, _ => true
  | depth + 1, a, b =>
    let all (as bs : List Value) : Bool :=
      as.length == bs.length && (as.zip bs).all fun (v, w) => alike state depth v w
    let fields (as bs : List (Bytes × Value)) : Bool :=
      as.map (·.1) == bs.map (·.1) && all (as.map (·.2)) (bs.map (·.2))
    match a, b with
    | .null, .null => true
    | .bool a, .bool b => a == b
    | .int a, .int b => a == b
    | .octet a, .octet b => a == b
    | .float a, .float b => a == b
    | .string a, .string b => a == b
    | .list a o, .list b p => (o.same p && a.length == b.length) || all a b
    | .span a, .span b => a == b
    | .record a o, .record b p => o.same p || fields a b
    | .record a _, .state => fields a state
    | .state, .record b _ => fields state b
    | .state, .state => true
    | _, _ => false

mutual

/-- The largest number that an evaluation gave to a list or a record in a value. -/
def newest : Value → Nat
  | .list items o => max o.number (newestOfAll items)
  | .record fields o => max o.number (newestOfFields fields)
  | _ => 0

/-- The largest number in a list of values. -/
def newestOfAll : List Value → Nat
  | [] => 0
  | v :: vs => max (newest v) (newestOfAll vs)

/-- The largest number in the values of fields. -/
def newestOfFields : List (Bytes × Value) → Nat
  | [] => 0
  | (_, v) :: fs => max (newest v) (newestOfFields fs)

end

/-- The value with an octet taken for an integer. -/
def widened : Value → Value
  | .octet b => .int (Int64.ofNat b.toNat)
  | v => v

/-- The integer that a value counts as, if it is one or an octet. -/
def integer? (v : Value) : Option Int64 :=
  match v.widened with
  | .int n => some n
  | _ => none

/-- The depth at which values that have not turned out to be different are equal: deeper down, the
same parts are compared again. -/
def depthLimit (state : List (Bytes × Value)) (a b : Value) : Nat :=
  (a.size + sizeOfFields state + 1) * (b.size + sizeOfFields state + 1) + 1

/-- The equality of the language over a state record: numbers are compared by amount. -/
def equals (state : List (Bytes × Value)) (a b : Value) : Bool :=
  match a.widened, b.widened with
  | .int x, .float y => x.toFloat == y
  | .float x, .int y => x == y.toFloat
  | x, y => alike state (depthLimit state x y) x y

/-- A number as a floating number. -/
def toFloat? (v : Value) : Option Float :=
  match v.widened with
  | .int a => some a.toFloat
  | .float a => some a
  | _ => none

/-- A floating number without its fraction, as an integer; the least integer stands for all that
does not fit. -/
def truncate (x : Float) : Int64 :=
  if (-9223372036854775808 : Float) ≤ x ∧ x < (9223372036854775808 : Float) then x.toInt64
  else Int64.minValue

/-- A number as an index. -/
def toIndex? (v : Value) : Option Int64 :=
  match v.widened with
  | .int a => some a
  | .float a => some (truncate a)
  | _ => none

/-- A value as the name of a field; nothing stands for the empty name. -/
def toName? : Value → Option Bytes
  | .null => some []
  | .string s => some s
  | _ => none

/-- The record with given bindings. -/
def ofFields (l : List (Bytes × Value)) : Value :=
  .record (Fields.ofList l)

end Value

end LiveMarkup

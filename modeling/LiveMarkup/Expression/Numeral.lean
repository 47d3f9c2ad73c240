import LiveMarkup.Expression.Term
import LiveMarkup.Number.Decimal
import LiveMarkup.Text.Escape

/-!
# The value of a numeral

A numeral is an integer in base ten, or in base sixteen, eight or two after `0x`, `0o` or `0b`, or a
decimal fraction with or without an exponent. Underscores between digits do not count. An integer
has to fit into 64 bits with its sign, and a fraction must not be too large.
-/

namespace LiveMarkup

namespace Expression

namespace Numeral

/-- The integer below `2 ^ 63` that a number is. -/
def int? (n : Nat) : Option Term :=
  if n < 0x8000000000000000 then some (.int (Int64.ofNat n)) else none

/-- The value of a non-empty list of digits in a base. -/
def based? (digit? : UInt8 → Option Nat) (base : Nat) (ds : Bytes) : Option Nat :=
  if ds.isEmpty then none
  else ds.foldlM (fun n d => (digit? d).map (n * base + ·)) 0

/-- The value of a decimal digit. -/
def decimalValue? (b : UInt8) : Option Nat :=
  if isDigitOctet b then some (b.toNat - 0x30) else none

/-- The value of a binary digit. -/
def binaryValue? (b : UInt8) : Option Nat :=
  if b = octet '0' then some 0 else if b = octet '1' then some 1 else none

/-- The exponent after its mark: a sign and at least one digit. -/
def exponent? (s : Bytes) : Option Int :=
  match s with
  | [] => none
  | b :: r =>
    if b = octet '-' then (based? decimalValue? 10 r).map fun n => -(n : Int)
    else if b = octet '+' then (based? decimalValue? 10 r).map fun n => (n : Int)
    else (based? decimalValue? 10 s).map fun n => (n : Int)

/-- The value of a decimal fraction: digits with at most one point among or around them, and an
optional exponent. -/
def float? (s : Bytes) : Option Float :=
  let isMark (b : UInt8) : Bool := b == octet 'e' || b == octet 'E'
  let mantissa := s.takeWhile fun b => !isMark b
  let whole := mantissa.takeWhile isDigitOctet
  let afterWhole := mantissa.dropWhile isDigitOctet
  let fraction? : Option Bytes :=
    match afterWhole with
    | [] => some []
    | b :: r => if b = octet '.' ∧ r.all isDigitOctet then some r else none
  let scale? : Option Int :=
    match s.dropWhile fun b => !isMark b with
    | [] => some 0
    | _ :: r => exponent? r
  match fraction?, scale? with
  | some fraction, some scale =>
    if whole.isEmpty && fraction.isEmpty then none
    else Decimal.toFloat? (digitsValue (whole ++ fraction)) (scale - fraction.length)
  | _, _ => none

/-- The term of a numeral as written. -/
def term? (text : Bytes) : Option Term :=
  let s := text.filter (· ≠ octet '_')
  let lower := s.map lowerOctet
  match Bytes.after? (utf8 "0x") lower with
  | some ds => (based? hexValue? 16 ds).bind int?
  | none =>
    if lower.any fun b => b == octet '.' || b == octet 'e' then (float? s).map .float
    else match Bytes.after? (utf8 "0b") lower with
      | some ds => (based? binaryValue? 2 ds).bind int?
      | none =>
        match Bytes.after? (utf8 "0o") lower with
        | some ds => (based? Escape.octalValue? 8 ds).bind int?
        | none => (based? decimalValue? 10 s).bind int?

end Numeral

end Expression

end LiveMarkup

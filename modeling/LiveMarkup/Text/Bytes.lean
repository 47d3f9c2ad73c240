/-!
# Texts as octets

Every text the library reads or writes is a list of octets, because sources need not be well-formed
UTF-8 and offsets count octets. This file has the constants, the ASCII classes, decimal numerals and
the few list operations the other modules share.
-/

namespace LiveMarkup

/-- A text, as the octets it is made of. -/
abbrev Bytes := List UInt8

instance : LawfulBEq Bytes := inferInstance

/-- The octets of a literal. -/
def utf8 (s : String) : Bytes := s.toUTF8.data.toList

/-- The octet of an ASCII character. -/
def octet (c : Char) : UInt8 := c.toNat.toUInt8

/-! ### ASCII classes -/

/-- `a` to `z`. -/
def isLowerOctet (b : UInt8) : Bool := octet 'a' ≤ b && b ≤ octet 'z'

/-- `A` to `Z`. -/
def isUpperOctet (b : UInt8) : Bool := octet 'A' ≤ b && b ≤ octet 'Z'

/-- `0` to `9`. -/
def isDigitOctet (b : UInt8) : Bool := octet '0' ≤ b && b ≤ octet '9'

/-- An ASCII letter. -/
def isAlphaOctet (b : UInt8) : Bool := isLowerOctet b || isUpperOctet b

/-- A letter, a digit or an underscore: what an identifier is made of. -/
def isIdentOctet (b : UInt8) : Bool := isAlphaOctet b || isDigitOctet b || b == octet '_'

/-- What an identifier is made of, or a dash: the octets of class names, ids and keys. -/
def isNameOctet (b : UInt8) : Bool := isIdentOctet b || b == octet '-'

/-- The blanks that separate the parts of a line: space, tab, carriage return, form feed and
vertical tab. -/
def isGapOctet (b : UInt8) : Bool :=
  b == octet ' ' || b == octet '\t' || b == octet '\r' || b == 0x0c || b == 0x0b

/-- The blanks allowed around the operator of a declaration or a statement: space, tab, line feed,
carriage return and form feed, but not the vertical tab. -/
def isPatternBlank (b : UInt8) : Bool :=
  b == octet ' ' || b == octet '\t' || b == octet '\n' || b == octet '\r' || b == 0x0c

/-- The lower-case counterpart of an ASCII letter; any other octet is itself. -/
def lowerOctet (b : UInt8) : UInt8 := if isUpperOctet b then b + 32 else b

/-! ### Numerals -/

/-- The digit octets of a number below sixteen, with `a` to `f` above nine. -/
def hexDigit (n : Nat) : UInt8 :=
  if n < 10 then octet '0' + n.toUInt8 else octet 'a' + (n - 10).toUInt8

/-- The value of a hexadecimal digit in either case. -/
def hexValue? (b : UInt8) : Option Nat :=
  if isDigitOctet b then some (b.toNat - 0x30)
  else if octet 'a' ≤ b && b ≤ octet 'f' then some (b.toNat - 0x57)
  else if octet 'A' ≤ b && b ≤ octet 'F' then some (b.toNat - 0x37)
  else none

/-- `width` hexadecimal digits of `n`, leading zeros included. -/
def hexDigits : (width : Nat) → (n : Nat) → Bytes
  | 0, _ => []
  | w + 1, n => hexDigits w (n / 16) ++ [hexDigit (n % 16)]

/-- The decimal numeral of a natural number. -/
def decimalNat (n : Nat) : Bytes := (Nat.toDigits 10 n).map octet

/-- The decimal numeral of an integer, with a minus sign below zero. -/
def decimalInt : Int → Bytes
  | .ofNat n => decimalNat n
  | .negSucc n => octet '-' :: decimalNat (n + 1)

/-- The number that a list of decimal digits writes. -/
def digitsValue (ds : Bytes) : Nat :=
  ds.foldl (fun n d => n * 10 + (d.toNat - 0x30)) 0

namespace Bytes

/-! ### Parts -/

/-- What follows `p` in `s`, if `s` begins with `p`. -/
def after? : (p s : Bytes) → Option Bytes
  | [], s => some s
  | _ :: _, [] => none
  | a :: p, b :: s => if a = b then after? p s else none

/-- Whether `p` stands somewhere in `s`. -/
def contains (p : Bytes) : (s : Bytes) → Bool
  | [] => p.isEmpty
  | b :: s => (after? p (b :: s)).isSome || contains p s

/-- The text without one carriage return at its end. -/
def dropReturn (s : Bytes) : Bytes :=
  if s.getLast? = some (octet '\r') then s.dropLast else s

end Bytes

end LiveMarkup

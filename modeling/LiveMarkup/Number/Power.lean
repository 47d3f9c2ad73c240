/-!
# Powers of floating numbers

The power of a floating number by repeated squaring. The base is split into a fraction between one
half and one and a power of two; the two parts are raised apart, so nothing overflows before the
end. A fractional part of the exponent goes through the exponential function.
-/

namespace LiveMarkup

namespace Power

/-- Positive infinity. -/
def infinity : Float := 1 / 0

/-- Whether a number has its sign bit set, as negative zero has. -/
def isNegative (x : Float) : Bool := x.toBits >>> 63 == 1

/-- Whether a number is an odd integer. -/
def isOdd (x : Float) : Bool :=
  x.abs < 9007199254740992 && x.floor == x && x.abs.toUInt64 % 2 == 1

/-- A power of two that is certain to overflow or underflow. -/
def isBeyond (e : Int) : Bool := e < -4096 || 4096 < e

/-- The product of `a * 2 ^ ae` and the `n`-th power of `x * 2 ^ xe`, as fraction and exponent. The
fraction `x` stays at least one half. -/
def squaring (n : Nat) (x : Float) (xe : Int) (a : Float) (ae : Int) : Float × Int :=
  if h : n = 0 then (a, ae)
  else if isBeyond xe then (a, ae + xe)
  else
    let a' := if n % 2 = 1 then a * x else a
    let ae' := if n % 2 = 1 then ae + xe else ae
    let square := x * x
    if square < 0.5 then squaring (n / 2) (square + square) (2 * xe - 1) a' ae'
    else squaring (n / 2) square (2 * xe) a' ae'
termination_by n
decreasing_by all_goals omega

/-- The power of a finite base other than zero and one to a finite exponent. -/
def finite (x y : Float) : Float :=
  let whole := y.abs.floor
  let part := y.abs - whole
  if part != 0 && x < 0 then 0 / 0
  else if whole ≥ 9223372036854775808 then
    if x == -1 then 1 else if (x.abs < 1) == (0 < y) then 0 else infinity
  else
    let up := 0.5 < part
    let n := whole.toUInt64.toNat + (if up then 1 else 0)
    let a := if part == 0 then 1 else ((if up then part - 1 else part) * x.log).exp
    let split := x.frExp
    let result := squaring n split.1 split.2 a 0
    if y < 0 then (1 / result.1).scaleB (-result.2) else result.1.scaleB result.2

/-- The power `x ^ y`. -/
def power (x y : Float) : Float :=
  if y == 0 || x == 1 then 1
  else if y == 1 then x
  else if x.isNaN || y.isNaN then 0 / 0
  else if x == 0 then
    if y < 0 then (if isNegative x && isOdd y then -infinity else infinity)
    else if isNegative x && isOdd y then x else 0
  else if y.isInf then
    if x == -1 then 1 else if (x.abs < 1) == (0 < y) then 0 else infinity
  else if x.isInf then
    if y < 0 then (if isNegative x && isOdd y then -0.0 else 0)
    else if isNegative x && isOdd y then x else infinity
  else if y == 0.5 then x.sqrt
  else if y == -0.5 then 1 / x.sqrt
  else finite x y

end Power

end LiveMarkup

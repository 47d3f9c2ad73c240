import LiveMarkup.Text.Bytes

/-!
# Decimal numerals of floating-point numbers

A finite positive number `m · 2 ^ q` is written with the fewest digits that still read back as the
same number. The reals that read back as it form an interval around it, whose ends belong to it
exactly when `m` is even; for one, two, three, … digits the two neighbours of the number on that
decimal grid are tested in exact arithmetic, and the first grid with a neighbour inside the interval
gives the digits. Of two neighbours inside, the nearer one is taken, and of two equally near ones
the even one.
-/

namespace LiveMarkup

namespace Decimal

/-- A positive number as digits and a scale: `digits · 10 ^ scale`. -/
structure Scaled where
  digits : Nat
  scale : Int
  deriving Repr, DecidableEq

/-- The significand and the binary exponent of a finite number, sign apart. -/
def binary (x : Float) : Nat × Int :=
  let bits : Nat := x.toBits.toNat
  let fraction : Nat := bits % 0x10000000000000
  let exponent : Nat := bits / 0x10000000000000 % 0x800
  if exponent = 0 then (fraction, -1074) else (fraction + 0x10000000000000, (exponent : Int) - 1075)

/-- A number times a power of ten, as numerator and denominator. -/
def timesTen (n : Nat) (k : Int) : Nat × Nat :=
  match k with
  | .ofNat k => (n * Nat.pow 10 k, 1)
  | .negSucc k => (n, Nat.pow 10 (k + 1))

/-- The exponent of the leading decimal digit of `num / den`. -/
def leading (num den : Nat) : Int :=
  if den ≤ num then ((Nat.toDigits 10 (num / den)).length : Int) - 1
  else match (List.range 400).find? fun j => den ≤ num * Nat.pow 10 (j + 1) with
    | some j => -((j : Int) + 1)
    | none => 0

/-- The neighbour of `v / den` on the grid of multiples of `10 ^ k` that lies between `lo / den` and
`hi / den`, if there is one; the ends count when `closed` holds. -/
def onGrid? (v lo hi den : Nat) (closed : Bool) (k : Int) : Option Nat :=
  let (tenNum, tenDen) := timesTen 1 k
  let below := v * tenDen / (den * tenNum)
  -- `d · 10 ^ k` compared with `x / den`
  let inside (d : Nat) : Bool :=
    let p := d * tenNum * den
    if closed then lo * tenDen ≤ p && p ≤ hi * tenDen else lo * tenDen < p && p < hi * tenDen
  let gapBelow := v * tenDen - below * tenNum * den
  let gapAbove := (below + 1) * tenNum * den - v * tenDen
  match inside below, inside (below + 1) with
  | true, true =>
    if gapBelow < gapAbove then some below
    else if gapAbove < gapBelow then some (below + 1)
    else if below % 2 = 0 then some below else some (below + 1)
  | true, false => some below
  | false, true => some (below + 1)
  | false, false => none

/-- The fewest digits that read back as the finite positive number `x`. -/
def shortest (x : Float) : Scaled :=
  let (m, q) := binary x
  let boundary := m = 0x10000000000000 ∧ q ≠ -1074
  let (scaleUp, den) : Nat × Nat :=
    match q - 2 with
    | .ofNat k => (Nat.pow 2 k, 1)
    | .negSucc k => (1, Nat.pow 2 (k + 1))
  let v := 4 * m * scaleUp
  let lo := (if boundary then 4 * m - 1 else 4 * m - 2) * scaleUp
  let hi := (4 * m + 2) * scaleUp
  let e := leading v den
  let grid (n : Nat) : Option Scaled :=
    let k := e - n
    (onGrid? v lo hi den (m % 2 = 0) k).map fun d => ⟨d, k⟩
  ((List.range 17).findSome? grid).getD ⟨v / den, 0⟩

/-- The digits without the zeros at their end, which go into the scale. The first argument bounds
the number of steps by the number of digits. -/
def dropZeros : (steps : Nat) → Scaled → Scaled
  | 0, d => d
  | n + 1, d =>
    if d.digits % 10 = 0 ∧ d.digits ≠ 0 then dropZeros n ⟨d.digits / 10, d.scale + 1⟩ else d

/-- Whether a number whose leading digit has exponent `e` is written without an exponent. -/
def isPositional (e : Int) : Bool := -4 ≤ e && e < 6

/-- The exponent mark, a sign and at least two digits. -/
def exponentPart (e : Int) : Bytes :=
  let ds := decimalNat e.natAbs
  octet 'e' :: (if e < 0 then octet '-' else octet '+') ::
    (if ds.length < 2 then octet '0' :: ds else ds)

/-- The numeral of a positive number: positional for middling exponents, with one digit before the
point and an exponent otherwise. -/
def layout (d : Scaled) : Bytes :=
  let d := dropZeros 20 d
  let ds := decimalNat d.digits
  let e : Int := ds.length + d.scale - 1
  if isPositional e then
    if 0 ≤ d.scale then ds ++ List.replicate d.scale.toNat (octet '0')
    else if 0 ≤ e then
      ds.take (e.toNat + 1) ++ octet '.' :: ds.drop (e.toNat + 1)
    else utf8 "0." ++ List.replicate ((-e).toNat - 1) (octet '0') ++ ds
  else
    match ds with
    | [] => []
    | [a] => a :: exponentPart e
    | a :: rest => a :: octet '.' :: (rest ++ exponentPart e)

/-- The numeral of a floating-point number. -/
def ofFloat (x : Float) : Bytes :=
  if x.isNaN then utf8 "NaN"
  else if x.isInf then if x < 0 then utf8 "-Inf" else utf8 "+Inf"
  else
    let negative := x.toBits.toNat / 0x8000000000000000 = 1
    let body := if x == 0 then utf8 "0" else layout (shortest x)
    if negative then octet '-' :: body else body

/-- The floating-point number nearest to `digits · 10 ^ scale`, or `none` when it is too large. -/
def toFloat? (digits : Nat) (scale : Int) : Option Float :=
  let size : Int := (Nat.toDigits 10 digits).length + scale
  if digits = 0 then some 0
  else if 310 < size then none
  else if size < -330 then some 0
  else
    let x := match scale with
      | .ofNat k => Float.ofScientific (digits * Nat.pow 10 k) false 0
      | .negSucc k => Float.ofScientific digits true (k + 1)
    if x.isInf then none else some x

end Decimal

end LiveMarkup

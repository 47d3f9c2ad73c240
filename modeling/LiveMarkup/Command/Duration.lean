import LiveMarkup.Text.Bytes

/-!
# Durations

A duration is written as a list of decimal numbers, each with a unit, as in `1h30m` or `1.5s`, with
an optional sign. It is a number of nanoseconds that fits into 64 bits with its sign.
-/

namespace LiveMarkup

namespace Duration

/-- The units and the number of nanoseconds in each. The micro sign has two spellings. -/
def units : List (Bytes × Nat) :=
  [(utf8 "ns", 1), (utf8 "us", 1000), (utf8 "µs", 1000), (utf8 "μs", 1000), (utf8 "ms", 1000000),
    (utf8 "s", 1000000000), (utf8 "m", 60000000000), (utf8 "h", 3600000000000)]

/-- Whether an octet ends a unit. -/
def endsUnit (b : UInt8) : Bool := b == octet '.' || isDigitOctet b

/-- The digits after the point at the start of a text, if there is one. -/
def fractionDigits : Bytes → Bytes
  | [] => []
  | b :: r => if b = octet '.' then r.takeWhile isDigitOctet else []

/-- What follows the point and its digits at the start of a text. -/
def afterFraction : Bytes → Bytes
  | [] => []
  | b :: r => if b = octet '.' then r.dropWhile isDigitOctet else b :: r

/-- The largest amount, which only a negative duration can have. -/
def limit : Nat := 0x8000000000000000

/-- The nanoseconds of a number with its unit, if they are not too many. -/
def amount? (whole fraction unit : Bytes) : Option Nat :=
  match (units.find? (·.1 = unit)).map Prod.snd with
  | none => none
  | some n =>
    let v := digitsValue whole
    let part := digitsValue fraction * n / Nat.pow 10 fraction.length
    if limit < v ∨ limit / n < v ∨ limit < v * n + part then none else some (v * n + part)

theorem length_afterFraction_le (s : Bytes) : (afterFraction s).length ≤ s.length := by
  cases s with
  | nil => simp [afterFraction]
  | cons b r =>
    rw [afterFraction]
    split
    · have := (List.dropWhile_suffix isDigitOctet (l := r)).length_le
      simp only [List.length_cons]
      omega
    · simp

/-- The nanoseconds of a list of numbers with units. -/
def sum? (s : Bytes) : Option Nat :=
  if s.isEmpty then some 0
  else
    let whole := s.takeWhile isDigitOctet
    let rest := s.dropWhile isDigitOctet
    let fraction := fractionDigits rest
    match _h : afterFraction rest with
    | [] => none
    | b :: r =>
      if (whole.isEmpty && fraction.isEmpty) || endsUnit b then none
      else
        let unit := b :: r.takeWhile fun c => !endsUnit c
        match amount? whole fraction unit, sum? (r.dropWhile fun c => !endsUnit c) with
        | some v, some w => if limit < v + w then none else some (v + w)
        | _, _ => none
termination_by s.length
decreasing_by
  have h₁ := length_afterFraction_le rest
  have h₂ : rest.length ≤ s.length := (List.dropWhile_suffix isDigitOctet).length_le
  have h₃ : (r.dropWhile fun c => !endsUnit c).length ≤ r.length :=
    (List.dropWhile_suffix _).length_le
  rw [_h, List.length_cons] at h₁
  omega

/-- A duration without its sign. A zero needs no unit. -/
def unsigned? (s : Bytes) : Option Nat :=
  if s = utf8 "0" then some 0 else if s.isEmpty then none else sum? s

/-- The nanoseconds of a duration. -/
def parse? (s : Bytes) : Option Int :=
  match s with
  | [] => none
  | b :: r =>
    if b = octet '-' then (unsigned? r).map fun n => -(n : Int)
    else
      let n := unsigned? (if b = octet '+' then r else s)
      (n.filter (· < limit)).map fun n => (n : Int)

end Duration

end LiveMarkup

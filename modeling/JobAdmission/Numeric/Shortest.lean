import JobAdmission.Numeric.Binary64

/-!
# The shortest decimal of a number

This module writes a binary64 number with the fewest decimal digits that read
back as the same number. `shortest` finds the digits: for one digit, two digits
and so on it tries the number's two neighbours on the grid of decimals with so
many digits, and takes the first grid that has one within the interval of reals
that round to the number (ends included when the number is even); of two hits the
nearer. Everything is a comparison of natural numbers.

`FloatFormat` holds what is a matter of notation: where positional notation ends.
-/

namespace JobAdmission

/-- The positive decimal `digits · 10 ^ exponent`. -/
structure Decimal where
  /-- The significant digits as one natural number. -/
  digits : Nat
  /-- The power of ten of the last digit. -/
  exponent : Int
  deriving DecidableEq, Repr

namespace Binary64

/-! ### The digits -/

/-- The number of decimal digits of a natural number. -/
def digitCount (n : Nat) : Nat := (Nat.toDigits 10 n).length

/-- The reals that round to a finite number, in half units (`2⁻¹⁰⁷⁵`). -/
structure Interval where
  /-- The lower end. -/
  low : Nat
  /-- The number itself. -/
  value : Nat
  /-- The upper end. -/
  high : Nat
  /-- Both ends round to the number, too. -/
  closed : Bool

/-- The interval of positive magnitude bits: halfway to each neighbour. -/
def interval (magnitude : Nat) : Interval where
  low := unitsOf (magnitude - 1) + unitsOf magnitude
  value := 2 * unitsOf magnitude
  high := unitsOf magnitude + unitsOf (magnitude + 1)
  closed := magnitude % 2 == 0

/-- `d · 10 ^ e` in half units as a numerator and a denominator. -/
def halfUnits (d : Nat) (e : Int) : Nat × Nat :=
  if 0 ≤ e then (d * tenPow e.toNat * (2 * one), 1) else (d * (2 * one), tenPow (-e).toNat)

/-- `d · 10 ^ e` lies in the interval. -/
def Interval.holds (i : Interval) (d : Nat) (e : Int) : Bool :=
  let (n, q) := halfUnits d e
  if i.closed then decide (i.low * q ≤ n ∧ n ≤ i.high * q)
  else decide (i.low * q < n ∧ n < i.high * q)

/-- The number of digits before the point of a value in half units; zero or less for
a value below a tenth. -/
def pointPosition (value : Nat) : Int :=
  (digitCount (value * tenPow 400 / (2 * one)) : Int) - 400

/-- The neighbour of the value among the decimals `d · 10 ^ e`, if one of the two
neighbours lies in the interval: the nearer, and the even one of two equally near. -/
def Interval.onGrid (i : Interval) (e : Int) : Option Nat :=
  let (n, q) := halfUnits 1 e
  let d := i.value * q / n
  let below := i.value * q - d * n
  let above := (d + 1) * n - i.value * q
  match i.holds d e, i.holds (d + 1) e with
  | true, true =>
    if below < above then some d
    else if above < below then some (d + 1)
    else some (d + d % 2)
  | true, false => some d
  | false, true => some (d + 1)
  | false, false => none

/-- Takes zeros off the end of the digits. The bound is the number of digits. -/
def trim : Nat → Nat → Int → Decimal
  | 0, d, e => ⟨d, e⟩
  | bound + 1, d, e => if d % 10 = 0 then trim bound (d / 10) (e + 1) else ⟨d, e⟩

/-- Every binary64 number reads back from this many digits. -/
def maxDigits : Nat := 17

/-- The shortest decimal that reads back as positive finite magnitude bits. -/
def shortest (magnitude : Nat) : Decimal :=
  let i := interval magnitude
  let p := pointPosition i.value
  let hit := (List.range maxDigits).findSome? fun (n : Nat) =>
    (i.onGrid (p - (n + 1))).map fun d => (d, p - (n + 1))
  match hit with
  | some (d, e) => trim (maxDigits + 1) d e
  | none => ⟨i.value, 0⟩

end Binary64

/-! ### The notation -/

/-- How a number is written: positionally while the power of ten of its first digit
is within bounds, else with an exponent, which always has a sign. -/
structure FloatFormat where
  /-- The least power of ten of the first digit in positional notation. -/
  minPositional : Int
  /-- The greatest power of ten of the first digit in positional notation. -/
  maxPositional : Int

namespace FloatFormat

/-- The text of a positive decimal. A whole number keeps `.0` in positional notation. -/
def decimal (f : FloatFormat) (x : Decimal) : List Char :=
  let ds := Nat.toDigits 10 x.digits
  let first := x.exponent + ds.length - 1
  if f.minPositional ≤ first ∧ first ≤ f.maxPositional then
    if 0 ≤ x.exponent then ds ++ List.replicate x.exponent.toNat '0' ++ ['.', '0']
    else if 0 ≤ first then ds.take (first.toNat + 1) ++ '.' :: ds.drop (first.toNat + 1)
    else '0' :: '.' :: (List.replicate (-first - 1).toNat '0' ++ ds)
  else
    let mantissa := match ds with
      | d :: rest@(_ :: _) => d :: '.' :: rest
      | ds => ds
    mantissa ++ 'e' :: (if first < 0 then '-' else '+') :: Nat.toDigits 10 first.natAbs

/-- The text of a number. -/
def text (f : FloatFormat) (x : Binary64) : String :=
  match x.datum with
  | .nan => "NaN"
  | .infinite negative => if negative then "-inf" else "inf"
  | .finite negative units =>
    let body := if units = 0 then ['0', '.', '0'] else f.decimal (Binary64.shortest x.magnitude)
    String.ofList (if negative then '-' :: body else body)

end FloatFormat

end JobAdmission

import JobAdmission.Numeric.Binary64

/-!
# Decimal numerals

This module reads decimal numerals as binary64 numbers. A numeral is a row of
whole digits, a row of fraction digits and a power of ten (`Numeral`). There are
two ways to read one.

* `Numeral.round` rounds once: the number nearest to the numeral's exact value.
* `Numeral.scale` is the reading of JSON data: the digits are gathered into one
  64-bit significand as far as they fit, the significand is rounded, and the
  result is multiplied or divided by a rounded power of ten. It can miss the
  nearest number by a little, and it refuses what exceeds every finite number.
-/

namespace JobAdmission

namespace Binary64

/-! ### Powers of ten -/

/-- The largest power of ten that is finite. -/
def maxPowerOfTen : Nat := 308

/-- The number nearest to `10ᵏ`. -/
def powerOfTen (k : Nat) : Binary64 := ofRatio false (tenPow k) 1

/-- `x` divided by `10ᵏ`, in steps of the largest finite power of ten, until
nothing is left of `x`. -/
def scaleDown (x : Binary64) (k : Nat) : Binary64 :=
  if k ≤ maxPowerOfTen then x / powerOfTen k
  else if x.isZero then x
  else scaleDown (x / powerOfTen maxPowerOfTen) (k - maxPowerOfTen)
termination_by k
decreasing_by simp_all only [maxPowerOfTen]; omega

/-- `x` multiplied by `10ᵏ`; nothing if the result is not finite. -/
def scaleUp (x : Binary64) (k : Nat) : Option Binary64 :=
  if k ≤ maxPowerOfTen then
    let y := x * powerOfTen k
    if y.isFinite then some y else none
  else if x.isZero then some x
  else none

end Binary64

/-- A decimal numeral without its sign: whole digits, a point, fraction digits, and
the power of ten that it is multiplied by. -/
structure Numeral where
  /-- The digits before the point, each below ten. -/
  whole : List Nat
  /-- The digits after the point, each below ten. -/
  fraction : List Nat
  /-- The written power of ten. -/
  exponent : Int
  deriving DecidableEq, Repr

namespace Numeral

/-- The natural number that a row of digits spells. -/
def ofDigits (digits : List Nat) : Nat := digits.foldl (fun n d => 10 * n + d) 0

/-! ### One rounding -/

/-- The number nearest to the numeral, with a sign. A numeral far outside the range
of binary64 is settled by the size of its digits and its power of ten, so that no
huge power of ten is computed. -/
def round (negative : Bool) (x : Numeral) : Binary64 :=
  let digits := x.whole ++ x.fraction
  let n := ofDigits digits
  let e := x.exponent - x.fraction.length
  if n = 0 then .zero negative
  else if 400 < e + (n.log2 / 4 : Nat) then .infinity negative
  else if e + digits.length < -400 then .zero negative
  else if 0 ≤ e then .ofRatio negative (n * tenPow e.toNat) 1
  else .ofRatio negative n (tenPow (-e).toNat)

/-! ### Significand and power of ten -/

/-- The significands are the natural numbers below this one. -/
def significandBound : Nat := UInt64.size

/-- Appends digits to a significand as long as it stays within its bound. Gives the
significand and the digits that no longer fit. -/
def gather (significand : Nat) : List Nat → Nat × List Nat
  | [] => (significand, [])
  | d :: ds =>
    if 10 * significand + d < significandBound then gather (10 * significand + d) ds
    else (significand, d :: ds)

/-- The numeral as a significand and a power of ten. A whole digit that does not fit
raises the power, a fraction digit that does not fit is dropped. -/
def parts (x : Numeral) : Nat × Int :=
  let (n, left) := gather 0 x.whole
  let (m, cut) := gather n x.fraction
  (m, x.exponent + left.length - (x.fraction.length - cut.length : Nat))

/-- The significand rounded, times the power of ten rounded; nothing if that is not
finite. -/
def scale (negative : Bool) (x : Numeral) : Option Binary64 :=
  let (n, e) := x.parts
  let y := Binary64.ofInt n
  let z := if 0 ≤ e then y.scaleUp e.toNat else some (y.scaleDown (-e).toNat)
  z.map fun z => if negative then -z else z

end Numeral

end JobAdmission

/-!
# Binary64

This module holds the numbers of the accounting feed: IEEE 754 binary64, kept as
64 bits and computed with exactly. Every finite number is a whole multiple of the
smallest positive one, `2⁻¹⁰⁷⁴`, which is the *unit* throughout. So a finite
number is a sign and a natural number of units (`Datum`), an operation works on
natural numbers without loss, and one function, `nearest`, rounds the exact
result back: to the nearest number, of two equally near ones to the even one.

The magnitude bits (all bits but the sign) order the numbers of one sign: the
word after a number's word is the next larger number. `unitsOf` reads magnitude
bits as units and `nearest` goes back, so `nearest` is monotone because both of
its steps are.
-/

namespace JobAdmission

/-- The power `10ᵏ`. -/
def tenPow (k : Nat) : Nat := Nat.pow 10 k

/-- A binary64 number, as its 64 bits. Equality is equality of bits: the two zeros
differ, and a NaN equals itself. -/
structure Binary64 where
  /-- Sign (1 bit), biased exponent (11 bits), fraction (52 bits). -/
  bits : UInt64
  deriving DecidableEq, Repr

namespace Binary64

/-- What the bits stand for. -/
inductive Datum where
  /-- `units` times `2⁻¹⁰⁷⁴`, with a sign (a zero has one, too). -/
  | finite (negative : Bool) (units : Nat)
  /-- One of the two infinities. -/
  | infinite (negative : Bool)
  /-- Not a number. -/
  | nan
  deriving DecidableEq, Repr

/-! ### Words and units -/

/-- The number of units in one. -/
def one : Nat := 1 <<< 1074

/-- `2⁵²`, the number of fractions of one exponent. -/
def fractionCount : Nat := 0x10000000000000

/-- `2⁶³`, the weight of the sign bit. -/
def signWeight : Nat := 0x8000000000000000

/-- The magnitude bits of an infinity; smaller magnitude bits are finite. -/
def infinityMagnitude : Nat := 2047 * fractionCount

/-- The units that finite magnitude bits stand for: the fraction itself below the
first normal number, else the fraction with its leading one, doubled once per
exponent step. -/
def unitsOf (magnitude : Nat) : Nat :=
  if magnitude < fractionCount then magnitude
  else (fractionCount + magnitude % fractionCount) <<< (magnitude / fractionCount - 1)

/-- All bits but the sign. -/
def magnitude (x : Binary64) : Nat := x.bits.toNat % signWeight

/-- The sign bit. -/
def isNegative (x : Binary64) : Bool := decide (signWeight ≤ x.bits.toNat)

/-- The number with a sign and magnitude bits. -/
def ofMagnitude (negative : Bool) (magnitude : Nat) : Binary64 :=
  ⟨UInt64.ofNat ((if negative then signWeight else 0) + magnitude)⟩

/-- What the bits of `x` stand for. -/
def datum (x : Binary64) : Datum :=
  if x.magnitude < infinityMagnitude then .finite x.isNegative (unitsOf x.magnitude)
  else if x.magnitude = infinityMagnitude then .infinite x.isNegative
  else .nan

/-- The not-a-number that operations give. -/
def notANumber : Binary64 := ofMagnitude false (infinityMagnitude + fractionCount / 2)

/-- The infinity with a sign. -/
def infinity (negative : Bool) : Binary64 := ofMagnitude negative infinityMagnitude

/-- The zero with a sign. -/
def zero (negative : Bool) : Binary64 := ofMagnitude negative 0

/-- Neither an infinity nor a NaN. -/
def isFinite (x : Binary64) : Bool := decide (x.magnitude < infinityMagnitude)

/-- One of the two zeros. -/
def isZero (x : Binary64) : Bool := x.magnitude == 0

/-! ### Rounding -/

/-- The whole number nearest to `n / d`, of two equally near ones the even one. -/
def divNearestEven (n d : Nat) : Nat :=
  if 2 * (n % d) < d then n / d
  else if d < 2 * (n % d) then n / d + 1
  else n / d + n / d % 2

/-- The magnitude bits nearest to `n / d` units: the quotient is cut to 53
significant bits, so the numbers near it are `2ᵏ` units apart, and what exceeds
the largest finite number is infinite. A carry out of the fraction runs into the
exponent, as it should. -/
def nearest (n d : Nat) : Nat :=
  let k := (n / d).log2 - 52
  min (k * fractionCount + divNearestEven n (d <<< k)) infinityMagnitude

/-- The number nearest to `n / d`, with a sign. -/
def ofRatio (negative : Bool) (n d : Nat) : Binary64 :=
  ofMagnitude negative (nearest (n * one) d)

/-- The number nearest to an integer. -/
def ofInt (n : Int) : Binary64 := ofRatio (decide (n < 0)) n.natAbs 1

/-! ### Arithmetic -/

/-- A signed number of units as an integer. -/
def signed (negative : Bool) (units : Nat) : Int := if negative then -(units : Int) else units

/-- The number nearest to an integer number of units. An exact zero keeps its sign
only if both summands had it. -/
def ofUnits (bothNegative : Bool) (n : Int) : Binary64 :=
  if n = 0 then zero bothNegative else ofMagnitude (decide (n < 0)) (nearest n.natAbs 1)

/-- The rounded sum. -/
def add (x y : Binary64) : Binary64 :=
  match x.datum, y.datum with
  | .finite s a, .finite t b => ofUnits (s && t) (signed s a + signed t b)
  | .infinite s, .finite _ _ => infinity s
  | .finite _ _, .infinite t => infinity t
  | .infinite s, .infinite t => if s = t then infinity s else notANumber
  | _, _ => notANumber

/-- The rounded product. -/
def mul (x y : Binary64) : Binary64 :=
  match x.datum, y.datum with
  | .finite s a, .finite t b => ofMagnitude (s != t) (nearest (a * b) one)
  | .infinite s, .finite t b => if b = 0 then notANumber else infinity (s != t)
  | .finite s a, .infinite t => if a = 0 then notANumber else infinity (s != t)
  | .infinite s, .infinite t => infinity (s != t)
  | _, _ => notANumber

/-- The rounded quotient. -/
def div (x y : Binary64) : Binary64 :=
  match x.datum, y.datum with
  | .finite s a, .finite t b =>
    if b = 0 then (if a = 0 then notANumber else infinity (s != t))
    else ofMagnitude (s != t) (nearest (a * one) b)
  | .infinite s, .finite t _ => infinity (s != t)
  | .finite s _, .infinite t => zero (s != t)
  | _, _ => notANumber

instance : Add Binary64 := ⟨add⟩
instance : Mul Binary64 := ⟨mul⟩
instance : Div Binary64 := ⟨div⟩

/-- The opposite number: only the sign changes. -/
def neg (x : Binary64) : Binary64 := ofMagnitude (!x.isNegative) x.magnitude

instance : Neg Binary64 := ⟨neg⟩

/-- The whole number nearest to a signed number of units, a half going away from
zero. -/
def roundHalfAway (negative : Bool) (units : Nat) : Int :=
  signed negative ((2 * units + one) / (2 * one))

/-- The number lies between zero and one, both included. -/
def inUnitInterval (x : Binary64) : Bool :=
  match x.datum with
  | .finite negative units => (!negative || units == 0) && decide (units ≤ one)
  | _ => false

end Binary64

end JobAdmission

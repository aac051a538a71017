import JobAdmission.Numeric.Binary64
import Mathlib.Order.Monotone.Basic
import Mathlib.Tactic.Linarith

/-!
# Rounding in order

This module orders the binary64 numbers and proves that the operations keep the order. A number
has a value in units (`Binary64.value`), where an infinity has the units that its magnitude bits
would stand for and so lies beyond all finite numbers. One number is at most another one if
neither is NaN and the values are in this order.

Rounding is monotone because both of its steps are: greater magnitude bits stand for more units
(`unitsOf_strictMono`), and of two quotients the greater one has the greater nearest magnitude
bits (`nearest_mono`). Each operation rounds an exact result once, so a sum is monotone in both
summands, a product with a constant that is not negative in its other factor, and the number
nearest to an integer in the integer.
-/

namespace JobAdmission.Binary64

/-! ### Magnitude bits -/

/-- Greater magnitude bits stand for more units. -/
theorem unitsOf_strictMono : StrictMono unitsOf := by
  intro m n h
  unfold unitsOf
  have positive : 0 < fractionCount := by decide
  have fraction := Nat.mod_lt m positive
  have split_m := Nat.div_add_mod m fractionCount
  have split_n := Nat.div_add_mod n fractionCount
  by_cases hn : n < fractionCount
  · rw [if_pos (h.trans hn), if_pos hn]
    exact h
  have exponent_n : 1 ≤ n / fractionCount := (Nat.one_le_div_iff positive).mpr (Nat.not_lt.mp hn)
  rw [if_neg hn]
  by_cases hm : m < fractionCount
  · rw [if_pos hm, Nat.shiftLeft_eq]
    calc
      m < fractionCount := hm
      _ ≤ fractionCount + n % fractionCount := Nat.le_add_right _ _
      _ ≤ (fractionCount + n % fractionCount) * 2 ^ (n / fractionCount - 1) :=
        Nat.le_mul_of_pos_right _ (Nat.two_pow_pos _)
  rw [if_neg hm, Nat.shiftLeft_eq, Nat.shiftLeft_eq]
  have exponent_m : 1 ≤ m / fractionCount := (Nat.one_le_div_iff positive).mpr (Nat.not_lt.mp hm)
  obtain same | less := (Nat.div_le_div_right h.le).eq_or_lt
  · -- with one exponent the fractions decide
    rw [← same]
    rw [← same] at split_n
    exact Nat.mul_lt_mul_of_pos_right (by omega) (Nat.two_pow_pos _)
  · -- a fraction with its leading one stays below twice the least one
    calc
      _ < 2 * fractionCount * 2 ^ (m / fractionCount - 1) :=
        Nat.mul_lt_mul_of_pos_right (by omega) (Nat.two_pow_pos _)
      _ = fractionCount * 2 ^ (m / fractionCount - 1 + 1) := by
        rw [pow_succ, mul_comm 2, mul_assoc, mul_comm 2]
      _ ≤ fractionCount * 2 ^ (n / fractionCount - 1) :=
        Nat.mul_le_mul_left _ (Nat.pow_le_pow_right (by decide) (by omega))
      _ ≤ (fractionCount + n % fractionCount) * 2 ^ (n / fractionCount - 1) :=
        Nat.mul_le_mul_right _ (Nat.le_add_right _ _)

theorem unitsOf_mono {m n : ℕ} (h : m ≤ n) : unitsOf m ≤ unitsOf n := unitsOf_strictMono.monotone h

/-- A quotient is rounded to one of the two whole numbers around it. -/
theorem divNearestEven_bounds (n d : ℕ) :
    n / d ≤ divNearestEven n d ∧ divNearestEven n d ≤ n / d + 1 := by
  have parity := Nat.mod_lt (n / d) two_pos
  unfold divNearestEven
  split_ifs <;> omega

theorem divNearestEven_mono (d : ℕ) {n n' : ℕ} (h : n ≤ n') :
    divNearestEven n d ≤ divNearestEven n' d := by
  obtain same | less := (Nat.div_le_div_right (c := d) h).eq_or_lt
  · -- between the same two whole numbers the remainders decide
    have remainders : n % d ≤ n' % d := by
      have hn := Nat.div_add_mod n d
      have hn' := Nat.div_add_mod n' d
      rw [← same] at hn'
      omega
    have parity := Nat.mod_lt (n / d) two_pos
    unfold divNearestEven
    rw [← same]
    split_ifs <;> omega
  · exact (divNearestEven_bounds n d).2.trans (less.trans_le (divNearestEven_bounds n' d).1)

/-- The exponent step of a quotient of units: so many doublings take 53 bits to it. -/
def stepOf (q : ℕ) : ℕ := q.log2 - 52

theorem nearest_eq (n d : ℕ) : nearest n d =
    min (stepOf (n / d) * fractionCount + divNearestEven n (d <<< stepOf (n / d)))
      infinityMagnitude := rfl

theorem nearest_le (n d : ℕ) : nearest n d ≤ infinityMagnitude := Nat.min_le_right _ _

theorem nearest_zero (d : ℕ) : nearest 0 d = 0 := by
  rw [nearest_eq, Nat.zero_div]
  simp [stepOf, divNearestEven]

theorem stepOf_mono {q q' : ℕ} (h : q ≤ q') : stepOf q ≤ stepOf q' := by
  by_cases hq : q = 0
  · simp [hq, stepOf]
  · exact Nat.sub_le_sub_right ((Nat.le_log2 (by omega)).mpr ((Nat.log2_self_le hq).trans h)) _

/-- After its steps a quotient has no more than 53 bits. -/
theorem div_step_lt (n d : ℕ) : n / (d <<< stepOf (n / d)) < 2 * fractionCount := by
  have bits : n / d < 2 ^ (stepOf (n / d) + 53) :=
    Nat.lt_log2_self.trans_le (Nat.pow_le_pow_right (by decide) (by unfold stepOf; omega))
  rw [Nat.shiftLeft_eq, ← Nat.div_div_eq_div_mul, Nat.div_lt_iff_lt_mul (Nat.two_pow_pos _)]
  rwa [pow_add, mul_comm] at bits

/-- After at least one step a quotient has 53 bits. -/
theorem le_div_step {n d : ℕ} (step : 0 < stepOf (n / d)) :
    fractionCount ≤ n / (d <<< stepOf (n / d)) := by
  have nonzero : n / d ≠ 0 := by
    intro h
    simp [h, stepOf] at step
  have bits : 2 ^ (stepOf (n / d) + 52) ≤ n / d := by
    refine (Nat.pow_le_pow_right (by decide) ?_).trans (Nat.log2_self_le nonzero)
    unfold stepOf at step ⊢
    omega
  rw [Nat.shiftLeft_eq, ← Nat.div_div_eq_div_mul, Nat.le_div_iff_mul_le (Nat.two_pow_pos _)]
  rwa [pow_add, mul_comm] at bits

/-- More units have greater nearest magnitude bits. -/
theorem nearest_mono (d : ℕ) {n n' : ℕ} (h : n ≤ n') : nearest n d ≤ nearest n' d := by
  rw [nearest_eq, nearest_eq]
  refine min_le_min_right _ ?_
  have quotients := Nat.div_le_div_right (c := d) h
  obtain same | less := (stepOf_mono quotients).eq_or_lt
  · rw [← same]
    exact Nat.add_le_add_left (divNearestEven_mono _ h) _
  · -- the lower one is at most where the next exponent starts, and the other one at least there
    have lower := (divNearestEven_bounds n (d <<< stepOf (n / d))).2.trans (div_step_lt n d)
    have upper := (le_div_step (Nat.zero_lt_of_lt less)).trans
      (divNearestEven_bounds n' (d <<< stepOf (n' / d))).1
    calc
      _ ≤ (stepOf (n / d) + 1) * fractionCount + fractionCount := by linarith
      _ ≤ stepOf (n' / d) * fractionCount + fractionCount :=
        Nat.add_le_add_right (Nat.mul_le_mul_right _ less) _
      _ ≤ _ := Nat.add_le_add_left upper _

/-! ### Signs -/

/-- A monotone function of what a sign stands before keeps the order, if it keeps zero. -/
theorem signed_mono {g : ℕ → ℕ} (mono : ∀ {a b}, a ≤ b → g a ≤ g b) (zero : g 0 = 0) {s t : Bool}
    {a b : ℕ} (h : signed s a ≤ signed t b) : signed s (g a) ≤ signed t (g b) := by
  cases s with
  | false =>
    cases t with
    | false => exact Int.ofNat_le.mpr (mono (Int.ofNat_le.mp h))
    | true =>
      have : a = 0 ∧ b = 0 := by
        simp only [signed, Bool.false_eq_true, if_false, if_true] at h
        omega
      simp [signed, this.1, this.2, zero]
  | true =>
    cases t with
    | false =>
      simp only [signed, Bool.false_eq_true, if_false, if_true]
      omega
    | true =>
      have := mono (a := b) (b := a) (by simpa [signed] using h)
      simpa [signed] using this

theorem signed_natAbs (n : ℤ) : signed (decide (n < 0)) n.natAbs = n := by
  unfold signed
  split_ifs with h
  · simp only [decide_eq_true_eq] at h
    omega
  · simp only [decide_eq_true_eq] at h
    omega

theorem signed_mul_signed (s t : Bool) (a b : ℕ) :
    signed s a * signed t b = signed (s != t) (a * b) := by
  cases s <;> cases t <;> simp [signed]

/-! ### Values -/

/-- The units that a number stands for, with its sign. An infinity has more than all finite
numbers. -/
def value (x : Binary64) : ℤ := signed x.isNegative (unitsOf x.magnitude)

/-- The number is at most the other one; neither is NaN. -/
instance : LE Binary64 := ⟨fun x y => x.datum ≠ .nan ∧ y.datum ≠ .nan ∧ x.value ≤ y.value⟩

variable {x y z : Binary64}

theorem datum_eq_nan_iff : x.datum = .nan ↔ infinityMagnitude < x.magnitude := by
  unfold datum
  split_ifs with finite infinite <;> simp <;> omega

theorem le_refl_of_ne_nan (h : x.datum ≠ .nan) : x ≤ x := ⟨h, h, le_rfl⟩

theorem datum_of_isFinite (h : x.isFinite = true) :
    x.datum = .finite x.isNegative (unitsOf x.magnitude) := if_pos (of_decide_eq_true h)

theorem ne_nan_of_isFinite (h : x.isFinite = true) : x.datum ≠ .nan := by
  rw [datum_of_isFinite h]
  exact Datum.noConfusion

/-- The units of an infinity without its sign. -/
def limit : ℕ := unitsOf infinityMagnitude

/-- A number is finite, or it is an infinity, or it is NaN. -/
theorem datum_cases (x : Binary64) : x.isFinite = true ∨
    (∃ s, x.datum = .infinite s ∧ x.value = signed s limit) ∨ x.datum = .nan := by
  unfold isFinite datum value
  split_ifs with finite infinite
  · exact .inl (decide_eq_true finite)
  · exact .inr (.inl ⟨x.isNegative, rfl, by rw [infinite]; rfl⟩)
  · exact .inr (.inr rfl)

/-- The two infinities bound all numbers. -/
theorem value_bounds (h : x.datum ≠ .nan) : -(limit : ℤ) ≤ x.value ∧ x.value ≤ limit := by
  have : unitsOf x.magnitude ≤ limit := unitsOf_mono (Nat.not_lt.mp (datum_eq_nan_iff.not.mp h))
  unfold value signed
  split_ifs <;> omega

/-- A finite number lies between the two infinities. -/
theorem value_bounds_of_isFinite (h : x.isFinite = true) :
    -(limit : ℤ) < x.value ∧ x.value < limit := by
  have : unitsOf x.magnitude < limit := unitsOf_strictMono (of_decide_eq_true h)
  unfold value signed
  split_ifs <;> omega

/-- What lies between finite numbers is finite. -/
theorem isFinite_of_between (hx : x.isFinite = true) (hz : z.isFinite = true) (hxy : x ≤ y)
    (hyz : y ≤ z) : y.isFinite = true := by
  obtain finite | ⟨s, -, infinite⟩ | nan := y.datum_cases
  · exact finite
  · have low := (value_bounds_of_isFinite hx).1.trans_le hxy.2.2
    have high := hyz.2.2.trans_lt (value_bounds_of_isFinite hz).2
    rw [infinite] at low high
    cases s with
    | false => exact absurd high (lt_irrefl _)
    | true => exact absurd low (lt_irrefl _)
  · exact absurd nan hxy.2.1

/-! ### Results of operations -/

section

variable {s : Bool} {m : ℕ}

theorem magnitude_ofMagnitude (h : m ≤ infinityMagnitude) : (ofMagnitude s m).magnitude = m := by
  unfold magnitude ofMagnitude infinityMagnitude fractionCount signWeight at *
  rw [UInt64.toNat_ofNat']
  split_ifs <;> omega

theorem isNegative_ofMagnitude (h : m ≤ infinityMagnitude) : (ofMagnitude s m).isNegative = s := by
  unfold isNegative ofMagnitude infinityMagnitude fractionCount signWeight at *
  rw [UInt64.toNat_ofNat']
  cases s
  · simp
    omega
  · simp
    omega

theorem value_ofMagnitude (h : m ≤ infinityMagnitude) :
    (ofMagnitude s m).value = signed s (unitsOf m) := by
  rw [value, magnitude_ofMagnitude h, isNegative_ofMagnitude h]

theorem datum_ofMagnitude_ne_nan (h : m ≤ infinityMagnitude) : (ofMagnitude s m).datum ≠ .nan := by
  rw [Ne, datum_eq_nan_iff, magnitude_ofMagnitude h]
  exact Nat.not_lt.mpr h

end

/-- The value of the number nearest to a quotient of units. -/
def rounded (n : ℤ) (d : ℕ) : ℤ := signed (decide (n < 0)) (unitsOf (nearest n.natAbs d))

/-- Rounding is monotone. -/
theorem rounded_mono (d : ℕ) {n n' : ℤ} (h : n ≤ n') : rounded n d ≤ rounded n' d := by
  refine signed_mono (g := fun a => unitsOf (nearest a d))
    (fun h => unitsOf_mono (nearest_mono d h)) ?_ ?_
  · simp only [nearest_zero]
    decide
  · rwa [signed_natAbs, signed_natAbs]

theorem rounded_signed (s : Bool) (a d : ℕ) :
    signed s (unitsOf (nearest a d)) = rounded (signed s a) d := by
  by_cases ha : a = 0
  · have none : unitsOf 0 = 0 := by decide
    cases s <;> simp [ha, rounded, signed, nearest_zero, none]
  · cases s with
    | false => simp [rounded, signed]
    | true => simp [rounded, signed, Nat.pos_of_ne_zero ha]

/-- A sum of finite numbers is rounded once. -/
theorem value_add (hx : x.isFinite = true) (hy : y.isFinite = true) :
    (x + y).datum ≠ .nan ∧ (x + y).value = rounded (x.value + y.value) 1 := by
  have sum : x + y = ofUnits (x.isNegative && y.isNegative) (x.value + y.value) := by
    show add x y = _
    rw [add, datum_of_isFinite hx, datum_of_isFinite hy]
    rfl
  rw [sum, ofUnits]
  split_ifs with h
  · have zero : unitsOf 0 = 0 := by decide
    refine ⟨datum_ofMagnitude_ne_nan (Nat.zero_le _), ?_⟩
    rw [Binary64.zero, value_ofMagnitude (Nat.zero_le _), h]
    simp [rounded, signed, nearest_zero, zero]
  · exact ⟨datum_ofMagnitude_ne_nan (nearest_le _ _), value_ofMagnitude (nearest_le _ _)⟩

/-- A product of finite numbers is rounded once. -/
theorem value_mul (hx : x.isFinite = true) (hy : y.isFinite = true) :
    (x * y).datum ≠ .nan ∧ (x * y).value = rounded (x.value * y.value) one := by
  have product : x * y = ofMagnitude (x.isNegative != y.isNegative)
      (nearest (unitsOf x.magnitude * unitsOf y.magnitude) one) := by
    show mul x y = _
    rw [mul, datum_of_isFinite hx, datum_of_isFinite hy]
  rw [product, value_ofMagnitude (nearest_le _ _), rounded_signed, value, value, signed_mul_signed]
  exact ⟨datum_ofMagnitude_ne_nan (nearest_le _ _), rfl⟩

/-- An integer is rounded once. -/
theorem value_ofInt (n : ℤ) : (ofInt n).datum ≠ .nan ∧
    (ofInt n).value = rounded (signed (decide (n < 0)) (n.natAbs * one)) 1 := by
  rw [ofInt, ofRatio, value_ofMagnitude (nearest_le _ _), rounded_signed]
  exact ⟨datum_ofMagnitude_ne_nan (nearest_le _ _), rfl⟩

/-- An infinity and a finite number make the infinity. -/
theorem value_add_of_infinite {s : Bool} (hx : x.datum = .infinite s) (hy : y.isFinite = true) :
    (x + y).datum ≠ .nan ∧ (x + y).value = signed s limit := by
  have sum : x + y = infinity s := by
    show add x y = _
    rw [add, hx, datum_of_isFinite hy]
  rw [sum]
  exact ⟨datum_ofMagnitude_ne_nan le_rfl, value_ofMagnitude le_rfl⟩

/-- A sum with a finite number is a number. -/
theorem add_ne_nan (hx : x.datum ≠ .nan) (hy : y.isFinite = true) : (x + y).datum ≠ .nan := by
  obtain finite | ⟨s, infinite, -⟩ | nan := x.datum_cases
  · exact (value_add finite hy).1
  · exact (value_add_of_infinite infinite hy).1
  · exact absurd nan hx

/-! ### Operations in order -/

/-- A sum is monotone in its summands, of which the second one is finite. -/
theorem add_le_add {x' y' : Binary64} (hy : y.isFinite = true) (hy' : y'.isFinite = true)
    (hxx' : x ≤ x') (hyy' : y ≤ y') : x + y ≤ x' + y' := by
  have number := add_ne_nan hxx'.1 hy
  have number' := add_ne_nan hxx'.2.1 hy'
  refine ⟨number, number', ?_⟩
  obtain finite | ⟨s, infinite, hx⟩ | nan := x.datum_cases
  · obtain finite' | ⟨s', infinite', hx'⟩ | nan' := x'.datum_cases
    · rw [(value_add finite hy).2, (value_add finite' hy').2]
      exact rounded_mono 1 (Int.add_le_add hxx'.2.2 hyy'.2.2)
    · rw [(value_add_of_infinite infinite' hy').2]
      cases s' with
      | false => exact (value_bounds number).2
      | true =>
        have order := (value_bounds_of_isFinite finite).1.trans_le hxx'.2.2
        exact absurd (hx' ▸ order) (lt_irrefl _)
    · exact absurd nan' hxx'.2.1
  · rw [(value_add_of_infinite infinite hy).2]
    cases s with
    | true => exact (value_bounds number').1
    | false =>
      -- only the same infinity is as great
      obtain finite' | ⟨s', infinite', hx'⟩ | nan' := x'.datum_cases
      · have order := hxx'.2.2.trans_lt (value_bounds_of_isFinite finite').2
        exact absurd (hx ▸ order) (lt_irrefl _)
      · rw [(value_add_of_infinite infinite' hy').2, ← hx, ← hx']
        exact hxx'.2.2
      · exact absurd nan' hxx'.2.1
  · exact absurd nan hxx'.1

/-- A product is monotone in a factor if the other one is not negative. -/
theorem mul_le_mul {c : Binary64} (hc : c.isFinite = true) (nonneg : 0 ≤ c.value)
    (hx : x.isFinite = true) (hy : y.isFinite = true) (h : x ≤ y) : c * x ≤ c * y := by
  obtain ⟨number, product⟩ := value_mul hc hx
  obtain ⟨number', product'⟩ := value_mul hc hy
  refine ⟨number, number', ?_⟩
  rw [product, product']
  exact rounded_mono one (Int.mul_le_mul_of_nonneg_left h.2.2 nonneg)

/-- The number nearest to an integer is monotone in it. -/
theorem ofInt_le_ofInt {m n : ℤ} (h : m ≤ n) : ofInt m ≤ ofInt n := by
  obtain ⟨number, value⟩ := value_ofInt m
  obtain ⟨number', value'⟩ := value_ofInt n
  refine ⟨number, number', ?_⟩
  rw [value, value']
  refine rounded_mono 1 (signed_mono (g := (· * one)) (fun h => Nat.mul_le_mul_right one h)
    (Nat.zero_mul one) ?_)
  rwa [signed_natAbs, signed_natAbs]

/-- Integers of 64 bits, with or without a sign, are far from the greatest finite number. -/
theorem isFinite_ofInt {n : ℤ} (low : -2 ^ 63 ≤ n) (high : n ≤ 2 ^ 64) :
    (ofInt n).isFinite = true :=
  isFinite_of_between (by decide +kernel) (by decide +kernel) (ofInt_le_ofInt low)
    (ofInt_le_ofInt high)

end JobAdmission.Binary64

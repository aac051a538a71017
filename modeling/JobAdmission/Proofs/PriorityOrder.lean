import JobAdmission.Priority
import JobAdmission.Proofs.Rounding

/-!
# Priorities in order

This module proves that a priority is bounded and monotone (`Priority.bounded_and_monotone`). For
a finite fairshare the weighted sum is a number: the weighted fairshare may be infinite, and the
two summands that come after it are finite, whatever the queue factor and the urgency are. What the
urgency adds is its difference to the default one unless that does not fit in 32 bits, and within
the urgencies that a user can give it always does. Between the least and the greatest of them the
priority grows with the fairshare, with the queue factor and with the urgency. The two ends of the
urgencies go to the two ends of the priorities, and what lies between them stays between them.
-/

namespace JobAdmission.Priority

open Binary64 (value)

/-! ### Bounds -/

theorem ofSum_bounds (sum : Binary64) : least ≤ ofSum sum ∧ ofSum sum ≤ greatest := by
  unfold ofSum
  have ends : least ≤ greatest := by decide
  split
  · exact ⟨le_rfl, ends⟩
  · split
    · exact ⟨le_rfl, ends⟩
    · exact ⟨ends, le_rfl⟩
  · exact ⟨le_max_left _ _, max_le ends (min_le_left _ _)⟩

theorem compute_bounds (fairshare : Binary64) (queueFactor : Int64) (urgency : Int32) :
    least ≤ compute fairshare queueFactor urgency ∧
      compute fairshare queueFactor urgency ≤ greatest := by
  unfold compute
  split
  · decide
  · split
    · decide
    · exact ofSum_bounds _

/-! ### Sums -/

/-- A whole number of 64 bits is finite as a binary64 number, and so is its weighted form. -/
theorem isFinite_weighted (queueFactor : Int64) :
    (Binary64.ofInt queueFactor.toInt).isFinite = true ∧
      (queueWeight * .ofInt queueFactor.toInt).isFinite = true := by
  have finite : ∀ n : Int64, (Binary64.ofInt n.toInt).isFinite = true := fun n =>
    Binary64.isFinite_ofInt n.le_toInt (n.toInt_lt.le.trans (by decide))
  have weight : queueWeight.isFinite = true ∧ 0 ≤ value queueWeight := by decide +kernel
  have ends : (queueWeight * .ofInt Int64.minValue.toInt).isFinite = true ∧
      (queueWeight * .ofInt Int64.maxValue.toInt).isFinite = true := by decide +kernel
  have low := Binary64.mul_le_mul weight.1 weight.2 (finite Int64.minValue) (finite queueFactor)
    (Binary64.ofInt_le_ofInt queueFactor.minValue_le_toInt)
  have high := Binary64.mul_le_mul weight.1 weight.2 (finite queueFactor) (finite Int64.maxValue)
    (Binary64.ofInt_le_ofInt queueFactor.toInt_le)
  exact ⟨finite queueFactor, Binary64.isFinite_of_between ends.1 ends.2 low high⟩

/-- What an urgency adds is finite. -/
theorem isFinite_added (urgency : Int32) :
    (Binary64.ofInt (urgency - defaultUrgency).toInt).isFinite = true := by
  have low := (urgency - defaultUrgency).le_toInt
  have high := (urgency - defaultUrgency).toInt_lt
  exact Binary64.isFinite_ofInt (by omega) (by omega)

section

variable {f f' : Binary64} {q q' : Int64} {u u' : Int32}

/-- An urgency adds its difference to the default one, if that does not overflow. -/
theorem toInt_sub_defaultUrgency (fits : Int32.minValue.toInt ≤ u.toInt - 16) :
    (u - defaultUrgency).toInt = u.toInt - 16 := by
  have high := u.toInt_lt
  have default : defaultUrgency.toInt = 16 := rfl
  have least : Int32.minValue.toInt = -2 ^ 31 := rfl
  rw [Int32.toInt_sub, default]
  exact Int.bmod_eq_of_le (by omega) (by omega)

/-- The greater of two urgencies that a user can give adds no less. -/
theorem sub_defaultUrgency_mono (least_le : holdUrgency ≤ u) (urgencies : u ≤ u') :
    u - defaultUrgency ≤ u' - defaultUrgency := by
  have hold : (0 : ℤ) ≤ u.toInt := Int32.le_iff_toInt_le.mp least_le
  have order := Int32.le_iff_toInt_le.mp urgencies
  have least : Int32.minValue.toInt = -2 ^ 31 := rfl
  rw [Int32.le_iff_toInt_le, toInt_sub_defaultUrgency (by omega),
    toInt_sub_defaultUrgency (by omega)]
  omega

/-- The weighted sum is monotone in everything that is summed. -/
theorem weightedSum_mono (hf : f.isFinite = true) (hf' : f'.isFinite = true) (shares : f ≤ f')
    (factors : q ≤ q') (urgencies : u - defaultUrgency ≤ u' - defaultUrgency) :
    weightedSum f q u ≤ weightedSum f' q' u' := by
  have weights : fairshareWeight.isFinite = true ∧ 0 ≤ value fairshareWeight ∧
      queueWeight.isFinite = true ∧ 0 ≤ value queueWeight := by decide +kernel
  obtain ⟨finite, weighted⟩ := isFinite_weighted q
  obtain ⟨finite', weighted'⟩ := isFinite_weighted q'
  have fairshare := Binary64.mul_le_mul weights.1 weights.2.1 hf hf' shares
  have queue := Binary64.mul_le_mul weights.2.2.1 weights.2.2.2 finite finite'
    (Binary64.ofInt_le_ofInt (Int64.le_iff_toInt_le.mp factors))
  have urgency : Binary64.ofInt (u - defaultUrgency).toInt ≤ .ofInt (u' - defaultUrgency).toInt :=
    Binary64.ofInt_le_ofInt (Int32.le_iff_toInt_le.mp urgencies)
  exact Binary64.add_le_add (isFinite_added u) (isFinite_added u')
    (Binary64.add_le_add weighted weighted' fairshare queue) urgency

/-- The weighted sum of a finite fairshare is a number. -/
theorem weightedSum_ne_nan (hf : f.isFinite = true) (q : Int64) (u : Int32) :
    (weightedSum f q u).datum ≠ .nan :=
  (weightedSum_mono hf hf (Binary64.le_refl_of_ne_nan (Binary64.ne_nan_of_isFinite hf))
    (Int64.le_refl q) (Int32.le_refl _)).1

/-! ### Priorities -/

/-- What makes a number whole is monotone: to the nearest one, a half away from zero. -/
theorem roundHalfAway_mono {s t : Bool} {a b : ℕ}
    (h : Binary64.signed s a ≤ Binary64.signed t b) :
    Binary64.roundHalfAway s a ≤ Binary64.roundHalfAway t b := by
  refine Binary64.signed_mono (g := fun a => (2 * a + Binary64.one) / (2 * Binary64.one)) ?_ ?_ h
  · intro a b h
    exact Nat.div_le_div_right (Nat.add_le_add_right (Nat.mul_le_mul_left 2 h) _)
  · decide +kernel

/-- A greater sum makes no lower priority. -/
theorem ofSum_mono {x y : Binary64} (h : x ≤ y) : ofSum x ≤ ofSum y := by
  obtain finite | ⟨s, infinite, hx⟩ | nan := x.datum_cases
  · obtain finite' | ⟨t, infinite', hy⟩ | nan' := y.datum_cases
    · rw [ofSum, ofSum, Binary64.datum_of_isFinite finite, Binary64.datum_of_isFinite finite']
      exact max_le_max le_rfl (min_le_min le_rfl (roundHalfAway_mono h.2.2))
    · cases t with
      | false =>
        rw [ofSum.eq_def y, infinite']
        exact (ofSum_bounds x).2
      | true =>
        have order := (Binary64.value_bounds_of_isFinite finite).1.trans_le h.2.2
        exact absurd (hy ▸ order) (lt_irrefl _)
    · exact absurd nan' h.2.1
  · cases s with
    | true =>
      rw [ofSum, infinite]
      exact (ofSum_bounds y).1
    | false =>
      obtain finite' | ⟨t, infinite', hy⟩ | nan' := y.datum_cases
      · have order := h.2.2.trans_lt (Binary64.value_bounds_of_isFinite finite').2
        exact absurd (hx ▸ order) (lt_irrefl _)
      · cases t with
        | false => rw [ofSum, ofSum, infinite, infinite']
        | true =>
          have order := h.2.2
          rw [hx, hy] at order
          exact absurd order (by decide +kernel)
      · exact absurd nan' h.2.1
  · exact absurd nan h.1

/-- Within the urgencies that a user can give, the priority is monotone. -/
theorem compute_mono (hf : f.isFinite = true) (hf' : f'.isFinite = true) (shares : f ≤ f')
    (factors : q ≤ q') (least_le : holdUrgency ≤ u) (urgencies : u ≤ u')
    (le_greatest : u' ≤ expediteUrgency) : compute f q u ≤ compute f' q' u' := by
  by_cases hold : u = holdUrgency
  · rw [compute, if_pos hold]
    exact (compute_bounds f' q' u').1
  by_cases expedite : u' = expediteUrgency
  · have greater : expediteUrgency ≠ holdUrgency := by decide
    rw [compute.eq_def f', if_neg (expedite ▸ greater), if_pos expedite]
    exact (compute_bounds f q u).2
  -- the others lie strictly between the ends, so neither end cuts in
  have inside : u ≠ expediteUrgency ∧ u' ≠ holdUrgency := by
    constructor
    · rintro rfl
      exact expedite (Int32.le_antisymm le_greatest urgencies)
    · rintro rfl
      exact hold (Int32.le_antisymm urgencies least_le)
  rw [compute, compute, if_neg hold, if_neg inside.1, if_neg inside.2, if_neg expedite]
  exact ofSum_mono (weightedSum_mono hf hf' shares factors
    (sub_defaultUrgency_mono least_le urgencies))

end

/-- The sum of a finite fairshare is a number, and its priority lies within 32 bits. The urgency
adds its difference to the default one wherever that does not overflow. Between the least and the
greatest urgency the priority is monotone in fairshare, queue factor and urgency. The least urgency
gives the least priority, and the greatest one the greatest. -/
theorem bounded_and_monotone :
    (∀ (f : Binary64) (q : Int64) (u : Int32), f.isFinite = true →
      (weightedSum f q u).datum ≠ .nan ∧ 0 ≤ compute f q u ∧ compute f q u ≤ 4294967295) ∧
    (∀ (f : Binary64) (q : Int64) (u : Int32), Int32.minValue.toInt ≤ u.toInt - 16 →
      weightedSum f q u =
        fairshareWeight * f + queueWeight * .ofInt q.toInt + .ofInt (u.toInt - 16)) ∧
    (∀ (f f' : Binary64) (q q' : Int64) (u u' : Int32), f.isFinite = true → f'.isFinite = true →
      f ≤ f' → q ≤ q' → 0 ≤ u → u ≤ u' → u' ≤ 31 → compute f q u ≤ compute f' q' u') ∧
    ∀ (f : Binary64) (q : Int64), compute f q 0 = 0 ∧ compute f q 31 = 4294967295 := by
  refine ⟨fun f q u hf => ⟨weightedSum_ne_nan hf q u, compute_bounds f q u⟩, ?_, ?_, ?_⟩
  · intro f q u fits
    rw [weightedSum, toInt_sub_defaultUrgency fits]
  · intro f f' q q' u u' hf hf' shares factors low urgencies high
    exact compute_mono hf hf' shares factors low urgencies high
  · exact fun f q => ⟨rfl, rfl⟩

/-- A half, with the least urgency whose difference fits, and raised to the largest finite number,
whose sum is infinite. -/
theorem sample_bounded_and_monotone :
    (weightedSum (.ofRatio false 1 2) 1 20).datum ≠ .nan ∧
      weightedSum (.ofRatio false 1 2) 1 (-2147483632) =
        fairshareWeight * .ofRatio false 1 2 + queueWeight * .ofInt 1 + .ofInt (-2147483648) ∧
      compute (.ofRatio false 1 2) 1 20 = 60004 ∧
      (weightedSum ⟨0x7fefffffffffffff⟩ 9223372036854775807 30).datum = .infinite false ∧
      compute (.ofRatio false 1 2) 1 20 ≤
        compute ⟨0x7fefffffffffffff⟩ 9223372036854775807 30 := by
  have finite : (Binary64.ofRatio false 1 2).isFinite = true ∧
      (⟨0x7fefffffffffffff⟩ : Binary64).isFinite = true := by decide +kernel
  have order : Binary64.ofRatio false 1 2 ≤ ⟨0x7fefffffffffffff⟩ :=
    ⟨by decide +kernel, by decide +kernel, by decide +kernel⟩
  exact ⟨(bounded_and_monotone.1 _ _ _ finite.1).1,
    bounded_and_monotone.2.1 _ _ (-2147483632) (by decide), by decide +kernel, by decide +kernel,
    bounded_and_monotone.2.2.1 _ _ _ _ _ _ finite.1 finite.2 order (by decide) (by decide)
      (by decide) (by decide)⟩

end JobAdmission.Priority

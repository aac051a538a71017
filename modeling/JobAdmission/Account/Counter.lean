/-!
# Counters

This module holds the counters of an account. A counter has 32 bits: counting up goes round
from the largest number to zero, and counting down stops at zero.
-/

namespace JobAdmission

/-- What an account counts with. -/
abbrev Counter := UInt32

namespace Counter

/-- One more. After the largest number comes zero. -/
def up (n : Counter) : Counter := n + 1

/-- One less, if there is one. -/
def down (n : Counter) : Counter := if n = 0 then 0 else n - 1

/-! ### What a counter tells -/

variable {n : Counter}

theorem toNat_up (h : n.toNat + 1 < UInt32.size) : n.up.toNat = n.toNat + 1 := by
  rw [up, UInt32.toNat_add, UInt32.toNat_one]
  exact Nat.mod_eq_of_lt h

theorem toNat_up_le (n : Counter) : n.up.toNat ≤ n.toNat + 1 := by
  rw [up, UInt32.toNat_add, UInt32.toNat_one]
  exact Nat.mod_le _ _

@[simp] theorem toNat_down (n : Counter) : n.down.toNat = n.toNat - 1 := by
  unfold down
  split
  · rename_i h
    rw [h]
    rfl
  · rename_i h
    have pos : 1 ≤ n := UInt32.le_iff_toNat_le.mpr (Nat.one_le_iff_ne_zero.mpr fun h0 =>
      h (UInt32.toNat_inj.mp h0))
    rw [UInt32.toNat_sub_of_le _ _ pos, UInt32.toNat_one]

theorem down_of_pos (h : 0 < n) : n.down = n - 1 := if_neg (UInt32.pos_iff_ne_zero.mp h)

/-- Counting down takes counting up back, unless the counter went round. -/
theorem down_up (h : n.toNat + 1 < UInt32.size) : n.up.down = n := by
  rw [← UInt32.toNat_inj, toNat_down, toNat_up h, Nat.add_sub_cancel]

/-- Counters that differ by a number still do so after both went up. -/
theorem up_add (d : Counter) : (n + d).up = n.up + d := by
  rw [up, up, UInt32.add_assoc, UInt32.add_comm d, ← UInt32.add_assoc]

/-- Counters that differ by a number still do so after both went down, unless only one of them
stood at zero. -/
theorem down_eq_down_add {m d : Counter} (h : n = m + d) (pos : d ≠ 0 → d < n) :
    n.down = m.down + d := by
  by_cases hd : d = 0
  · rw [h, hd, UInt32.add_zero, UInt32.add_zero]
  · have hdn := pos hd
    have hm : 0 < m := by
      rw [UInt32.pos_iff_ne_zero]
      rintro rfl
      rw [h, UInt32.zero_add] at hdn
      exact UInt32.lt_irrefl d hdn
    have hn : 0 < n := UInt32.lt_of_le_of_lt (UInt32.zero_le) hdn
    rw [down_of_pos hn, down_of_pos hm, h]
    grind

/-- Counting up takes counting down back, unless the counter stood at zero. -/
theorem up_down (h : 0 < n.toNat) : n.down.up = n := by
  have room : n.down.toNat + 1 < UInt32.size := by
    rw [toNat_down, Nat.sub_add_cancel h]
    exact n.toNat_lt
  rw [← UInt32.toNat_inj, toNat_up room, toNat_down, Nat.sub_add_cancel h]

end Counter

end JobAdmission

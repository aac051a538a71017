/-!
# Limits on running jobs

This module holds the limit on an account's running jobs and its number in the
accounting feed.
-/

namespace JobAdmission

/-- How many jobs of an account may run at a time. -/
inductive RunLimit where
  /-- As many as there are. -/
  | unlimited
  /-- At most this many. -/
  | capped (slots : UInt32)
  /-- As many as there are, and new jobs are not bound to the account at all. -/
  | detached
  deriving DecidableEq, Repr

namespace RunLimit

/-- The largest natural number of 32 bits. -/
def maxSlots : Nat := UInt32.size - 1

/-- The limit that a number stands for: `0` and `-1` for none, `-2` to detach, a
positive number for a cap, which stops at 32 bits. -/
def ofNumber? (n : Int64) : Option RunLimit :=
  if n = 0 ∨ n = -1 then some .unlimited
  else if n = -2 then some .detached
  else if 0 < n then some (.capped (UInt32.ofNat (min n.toInt.toNat maxSlots)))
  else none

/-- The number of a limit. -/
def toNumber : RunLimit → Int64
  | .unlimited => 0
  | .capped slots => Int64.ofInt slots.toNat
  | .detached => -2

/-- The number that stands for the limit of a placeholder account. -/
def missingNumber : Int64 := -1

/-- The number of slots, if it is bounded. -/
def cap : RunLimit → Option Nat
  | .unlimited => none
  | .capped slots => some slots.toNat
  | .detached => none

end RunLimit

end JobAdmission

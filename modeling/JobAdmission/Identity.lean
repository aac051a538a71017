import Std.Data.ExtTreeMap

/-!
# Identities

This module holds what users, jobs and accounts are known by. An account is known by
its user and the name of its bank, and accounts are ordered by user and then by
bank. Accounts that are known by the same are told apart by their handles.
-/

namespace JobAdmission

/-- The number of a user. -/
abbrev UserId := UInt32

/-- The number of a job. -/
abbrev JobId := UInt64

/-- What an account is known by. -/
structure AccountKey where
  /-- The user that the account belongs to. -/
  userid : UserId
  /-- The name of the bank. -/
  bank : String
  deriving DecidableEq, Repr

namespace AccountKey

/-- By user, then by bank. -/
instance : Ord AccountKey := ⟨compareLex (compareOn userid) (compareOn bank)⟩

instance : Std.TransOrd AccountKey :=
  inferInstanceAs (Std.TransCmp (compareLex (compareOn userid) (compareOn bank)))

instance : Std.LawfulEqOrd AccountKey where
  eq_of_compare {a b} h := by
    replace h : compareLex (compareOn userid) (compareOn bank) a b = .eq := h
    simp only [compareLex_eq_eq, compareOn, Std.LawfulEqOrd.compare_eq_iff_eq] at h
    cases a
    cases b
    simp_all

end AccountKey

/-- Which account is meant: what it is known by, and how many accounts that were known by
the same were created before it. -/
structure Handle where
  /-- What the account is known by. -/
  key : AccountKey
  /-- The number of accounts before it. -/
  serial : Nat
  deriving DecidableEq, Repr

namespace Handle

/-- By key, then by serial number. -/
instance : Ord Handle := ⟨compareLex (compareOn key) (compareOn serial)⟩

instance : Std.TransOrd Handle :=
  inferInstanceAs (Std.TransCmp (compareLex (compareOn key) (compareOn serial)))

instance : Std.LawfulEqOrd Handle where
  eq_of_compare {a b} h := by
    replace h : compareLex (compareOn key) (compareOn serial) a b = .eq := h
    simp only [compareLex_eq_eq, compareOn, Std.LawfulEqOrd.compare_eq_iff_eq] at h
    cases a
    cases b
    simp_all

end Handle

end JobAdmission

import JobAdmission.Numeric.Binary64

/-!
# Priorities

This module computes the priority of a job: the whole number nearest to

    100000 × fairshare + 10000 × queue factor + (urgency − 16)

summed in binary64 numbers from left to right, a half going away from zero, and kept
within `0` and `4294967295`. The difference is one of 32 bits, which wraps. The least
urgency holds a job at the lower end, the greatest expedites it to the upper end.
-/

namespace JobAdmission.Priority

/-- The weight of the fairshare. -/
def fairshareWeight : Binary64 := .ofInt 100000

/-- The weight of the queue factor. -/
def queueWeight : Binary64 := .ofInt 10000

/-- The urgency of a job whose user gives none. It adds nothing. -/
def defaultUrgency : Int32 := 16

/-- The urgency that holds a job. -/
def holdUrgency : Int32 := 0

/-- The urgency that expedites a job. -/
def expediteUrgency : Int32 := 31

/-- The least priority. -/
def least : Int := 0

/-- The greatest priority. -/
def greatest : Int := 4294967295

/-- The weighted sum, before it is made whole. -/
def weightedSum (fairshare : Binary64) (queueFactor : Int64) (urgency : Int32) : Binary64 :=
  fairshareWeight * fairshare + queueWeight * .ofInt queueFactor.toInt
    + .ofInt (urgency - defaultUrgency).toInt

/-- A number as a priority: made whole and kept within the ends. What is not a number
is at the lower end. -/
def ofSum (sum : Binary64) : Int :=
  match sum.datum with
  | .nan => least
  | .infinite negative => if negative then least else greatest
  | .finite negative units => max least (min greatest (Binary64.roundHalfAway negative units))

/-- The priority of a job. -/
def compute (fairshare : Binary64) (queueFactor : Int64) (urgency : Int32) : Int :=
  if urgency = holdUrgency then least
  else if urgency = expediteUrgency then greatest
  else ofSum (weightedSum fairshare queueFactor urgency)

end JobAdmission.Priority

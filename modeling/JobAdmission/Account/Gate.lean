import JobAdmission.Account.Counter
import JobAdmission.Identity
import Std.Data.ExtTreeSet

/-!
# The gate of running slots

This module holds the gate that keeps an account's running jobs within its cap. A
job that would exceed the cap is held in a queue. Held jobs are released one at a
time, the oldest first, as slots become free. A job that was let through under a cap,
or released, has a slot reserved until it runs, so jobs on their way to running count
against the cap as running ones do.
-/

namespace JobAdmission

/-- The gate of one account. -/
structure Gate where
  /-- The jobs that wait, oldest first. -/
  held : List JobId := []
  /-- The jobs that were released and do not run yet. -/
  released : Std.ExtTreeSet JobId := ∅
  /-- The number of reserved slots: one for each released job and for each job that was
  let through under a cap and does not run yet. -/
  reserved : Counter := 0

namespace Gate

/-- What the gate decides on a job. -/
inductive Decision where
  /-- The job may proceed; under a cap a slot is reserved for it. -/
  | proceed (reserved : Bool)
  /-- The job is held. -/
  | hold
  deriving DecidableEq, Repr

/-- The largest number of slots that is told apart. -/
def maxOccupied : Nat := UInt32.size - 1

/-- The number of slots in use, beside so many running jobs. -/
def occupied (g : Gate) (running : Counter) : Nat :=
  min (running.toNat + g.reserved.toNat) maxOccupied

/-- The job waits. -/
def isHeld (g : Gate) (job : JobId) : Bool := g.held.contains job

/-- There is no slot left under the cap. -/
def isFull (g : Gate) (running : Counter) : Option Nat → Bool
  | none => false
  | some cap => decide (cap ≤ g.occupied running)

/-- Decides on a job that is about to wait for resources. -/
def enter (g : Gate) (job : JobId) (running : Counter) (cap : Option Nat) : Decision × Gate :=
  match cap with
  | none => (.proceed false, g)
  | some _ =>
    if g.isFull running cap then (.hold, { g with held := g.held ++ [job] })
    else (.proceed true, { g with reserved := g.reserved.up })

/-- A slot of the job's own, or one that its release reserved. -/
def hasSlot (g : Gate) (job : JobId) (reservedByJob : Bool) : Bool :=
  reservedByJob || g.released.contains job

/-- Gives back the slot of a job, if it has one. -/
def freeSlot (g : Gate) (job : JobId) (reservedByJob : Bool) : Gate where
  held := g.held
  released := g.released.erase job
  reserved := if g.hasSlot job reservedByJob then g.reserved.down else g.reserved

/-- The job runs: its slot is reserved no more. -/
def started (g : Gate) (job : JobId) (reservedByJob : Bool) : Gate :=
  g.freeSlot job reservedByJob

/-- The job leaves the gate. Tells whether it gave a reserved slot back. -/
def withdraw (g : Gate) (job : JobId) (reservedByJob : Bool) : Bool × Gate :=
  (g.hasSlot job reservedByJob,
    { g.freeSlot job reservedByJob with held := g.held.filter (· ≠ job) })

/-- Releases the oldest held job if there is one and a slot for it. -/
def releaseNext (g : Gate) (running : Counter) (cap : Option Nat) : Option JobId × Gate :=
  if g.isFull running cap then (none, g)
  else match g.held with
    | [] => (none, g)
    | job :: held =>
      (some job, { held, released := g.released.insert job, reserved := g.reserved.up })

/-- Takes a release back: the job is the oldest held one again. -/
def unrelease (g : Gate) (job : JobId) : Gate :=
  if g.released.contains job then
    { held := job :: g.held, released := g.released.erase job, reserved := g.reserved.down }
  else g

end Gate

end JobAdmission

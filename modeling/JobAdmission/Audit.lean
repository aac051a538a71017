import JobAdmission.Identity

/-!
# The audit trail

This module holds the events that tell what the engine decided on a job, and the trail
that keeps them. A trail can have a capacity, and then keeps the newest events.
-/

namespace JobAdmission

/-- What an event tells. -/
inductive AuditAction where
  /-- A job was admitted. -/
  | accept
  /-- A job was rejected. -/
  | reject
  /-- A job's user has a placeholder. -/
  | placeholder
  /-- A job was moved from a placeholder to a real account. -/
  | rebind
  /-- A job was held. -/
  | hold
  /-- A held job was released. -/
  | release
  /-- A job was given a priority. -/
  | prioritize
  /-- A step of a job failed. -/
  | fault
  deriving DecidableEq, Repr

/-- The name of an action. -/
def AuditAction.name : AuditAction → String
  | .accept => "accept"
  | .reject => "reject"
  | .placeholder => "placeholder"
  | .rebind => "rebind"
  | .hold => "hold"
  | .release => "release"
  | .prioritize => "prioritize"
  | .fault => "fault"

/-- What was decided on a job. -/
structure AuditEvent where
  /-- The job. -/
  job : JobId
  /-- Its user. -/
  userid : UserId
  /-- The bank, where one is decided on. -/
  bank : Option String
  /-- What the event tells. -/
  action : AuditAction
  /-- More about it. -/
  detail : Option String
  deriving DecidableEq, Repr

/-- The events kept so far. -/
structure AuditTrail where
  /-- The number of events kept; without one all are. -/
  capacity : Option Nat
  /-- The events, oldest first. -/
  events : List AuditEvent := []
  deriving DecidableEq, Repr

namespace AuditTrail

/-- There are as many events as the trail keeps. -/
def isFull (t : AuditTrail) : Bool :=
  match t.capacity with
  | none => false
  | some capacity => decide (capacity ≤ t.events.length)

/-- Keeps an event. A full trail drops its oldest one first, so the newest event is
always kept. -/
def record (t : AuditTrail) (e : AuditEvent) : AuditTrail :=
  { t with events := (if t.isFull then t.events.tail else t.events) ++ [e] }

end AuditTrail

end JobAdmission

import JobAdmission.Engine.Basic

/-!
# Throttling

This module holds the steps that keep the running jobs of an account within its cap:
`depend` lets a job through or holds it, `run` counts it as running, and `inactive`
gives back all that the job took up and releases one held job if a slot became free.
What a step does to the account is a function of its own.
-/

namespace JobAdmission

/-! ### Accounts -/

namespace Account

/-- The account after the host refused to hold a job that its gate holds. -/
def unhold (a : Account) (job : JobId) : Account :=
  a.withGate (a.usage.gate.withdraw job false).2

/-- The account with a job counted as running, once. Its slot is reserved no more. -/
def start (a : Account) (job : JobId) (b : JobBinding) : Account :=
  { a with usage :=
    { a.usage with
      running := if b.countedRunning then a.usage.running else a.usage.running.up
      gate := a.usage.gate.started job b.runReserved } }

/-- The account without a job that leaves, and whether a slot became free: one that was
reserved for the job, or one that it ran on. -/
def leave (a : Account) (job : JobId) (b : JobBinding) (ran : Bool) : Bool × Account :=
  let (freed, gate) := a.usage.gate.withdraw job b.runReserved
  (freed || ran,
    { a with usage :=
      { a.usage with
        active := if b.countedActive then a.usage.active.down else a.usage.active
        running := if ran && b.countedRunning then a.usage.running.down else a.usage.running
        gate } })

/-- The account with its next held job released, if there is one and a slot for it. -/
def releaseNext (a : Account) : Option JobId × Account :=
  let (next, gate) := a.usage.gate.releaseNext a.usage.running a.terms.runLimit.cap
  (next, a.withGate gate)

/-- The account with a release taken back. -/
def unrelease (a : Account) (job : JobId) : Account := a.withGate (a.usage.gate.unrelease job)

end Account

namespace Engine

variable {H : Type}

/-! ### Holding -/

/-- What the step before waiting for resources answers. -/
inductive DependOutcome where
  /-- The job may proceed. -/
  | proceed
  /-- The job is held. -/
  | held
  deriving DecidableEq, Repr

/-- Has the gate of an account decide on a job, and tells the host if the job is held.
If the host refuses, the job leaves the gate again. -/
def throttle [Scheduler H] (e : Engine H) (job : Job) (account : Account) :
    Except HostError Gate.Decision × Account × H :=
  match account.enterGate job.id with
  | (.proceed reserved, account) => (.ok (.proceed reserved), account, e.host)
  | (.hold, account) => match Scheduler.request e.host (.addDependency job.id heldLabel) with
    | (some err, host) => (.error err, account.unhold job.id, host)
    | (none, host) => (.ok .hold, account, host)

/-- Lets a job proceed, or holds it at its account's limit. A placeholder has none. -/
def depend [Scheduler H] (e : Engine H) (job : Job) (s : JobStorage) : Step DependOutcome H :=
  match e.boundAccount s with
  | none => e.fault job s .missingBinding
  | some (b, account) =>
    if account.isPlaceholder then
      e.done { s with binding := some { b with runReserved := false } } .proceed
    else match e.throttle job account with
      | (.error err, account, host) =>
        { e.put account with host }.fault job s (.dependencyAdd err)
      | (.ok (.proceed reserved), account, host) =>
        { e.put account with host }.done
          { s with binding := some { b with runReserved := reserved } } .proceed
      | (.ok .hold, account, host) =>
        ({ e.put account with host }.note job (some account.key.bank) .hold none).done
          { s with dependencies := s.dependencies ++ [heldLabel] } .held

/-! ### Running -/

/-- Counts a job as running, once. -/
def run (e : Engine H) (job : Job) (s : JobStorage) : Step Unit H :=
  match e.boundAccount s with
  | none => e.fault job s .missingBinding
  | some (b, account) =>
    let s := s.removeDependency heldLabel
    (e.put (account.start job.id b)).done
      { s with binding := some { b with runReserved := false, countedRunning := true } } ()

/-! ### Leaving -/

/-- The detail of the event that tells of a release. -/
def releaseDetail (job : JobId) : String := "released job " ++ toString job.toNat

/-- Releases the next held job of an account, where a job left a slot. -/
def release [Scheduler H] (e : Engine H) (job : Job) (s : JobStorage) (account : Account) :
    Step Unit H :=
  match account.releaseNext with
  | (none, account) => (e.put account).done s ()
  | (some next, account) => match Scheduler.request e.host (.removeDependency next heldLabel) with
    | (some err, host) =>
      { e.put (account.unrelease next) with host }.fault job s (.dependencyRemove err)
    | (none, host) =>
      ({ e.put account with host }.note job (some account.key.bank) .release
        (some (releaseDetail next))).done s ()

/-- Gives back what a job took up, and releases a held job if a slot became free. The
job is not bound any more, even if the host refuses the release. -/
def inactive [Scheduler H] (e : Engine H) (job : Job) (s : JobStorage) : Step Unit H :=
  match e.boundAccount s with
  | none => e.fault job s .missingBinding
  | some (b, account) =>
    let s := { s with binding := none }
    match account.leave job.id b job.allocObserved with
    | (true, account) => e.release job s account
    | (false, account) => (e.put account).done s ()

end Engine

end JobAdmission

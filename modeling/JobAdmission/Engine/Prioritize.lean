import JobAdmission.Engine.Throttle

/-!
# Priorities and queues of jobs

This module holds the step that gives a job its priority and the steps that follow a
change of its queue. A job that is bound to a placeholder is first moved to its real
account, once there is one (`rebind`): it passed the throttle of the placeholder, so it
passes the throttle of the real account now, and it is counted as active now.
-/

namespace JobAdmission.Engine

variable {H : Type}

/-- What the step that asks for a priority answers. -/
inductive PriorityOutcome where
  /-- The priority. -/
  | value (priority : Int)
  /-- There is no account for the job yet. -/
  | unavailable
  deriving DecidableEq, Repr

/-! ### Priorities -/

/-- Gives a job that is bound to a real account its priority. -/
def prioritize (e : Engine H) (job : Job) (s : JobStorage) (account : Account) (b : JobBinding) :
    Step PriorityOutcome H :=
  let value := Priority.compute account.terms.fairshare b.queueFactor job.urgency
  (e.note job none .prioritize (some (toString value))).done s (.value value)

/-- The binding of a job after it was moved to a real account. Only a job that may
proceed takes a slot or gives one up. -/
def rebound (b : JobBinding) (account : Account) (factor : Int64) : Gate.Decision → JobBinding
  | .proceed reserved =>
    { b with account := account.handle, countedActive := true, queueFactor := factor,
             runReserved := reserved }
  | .hold => { b with account := account.handle, countedActive := true, queueFactor := factor }

/-- What is kept for a job after it was moved to a real account. -/
def reboundStorage (s : JobStorage) (b : JobBinding) : Gate.Decision → JobStorage
  | .proceed _ => { s with binding := some b }
  | .hold => { binding := some b, dependencies := s.dependencies ++ [heldLabel] }

/-- Moves a job from a placeholder to a real account and gives it its priority. -/
def rebind [Scheduler H] (e : Engine H) (job : Job) (s : JobStorage) (b : JobBinding)
    (account : Account) : Step PriorityOutcome H :=
  match e.queueFactor? account job.queue with
  | none => e.fault job s (.invalidQueue (job.queue.getD ""))
  | some factor => match e.throttle job account with
    | (.error err, account, host) => { e.put account with host }.fault job s (.dependencyAdd err)
    | (.ok decision, account, host) =>
      let account := account.countActive.withQueueFactor factor
      let bank := account.key.bank
      let b := rebound b account factor decision
      let s := reboundStorage s b decision
      let e := { e.put account with host }.note job (some bank) .rebind none
      let e := if decision = .hold then e.note job (some bank) .hold none else e
      match e.patch job (if job.bank.isNone then [.bank bank] else []) with
      | (some err, e) => e.fault job s (.jobspecUpdate err)
      | (none, e) => e.prioritize job s account b

/-- Gives a job its priority, or tells that its account is not known yet. -/
def priority [Scheduler H] (e : Engine H) (job : Job) (s : JobStorage) : Step PriorityOutcome H :=
  match e.boundAccount s with
  | none => e.fault job s .missingBinding
  | some (b, account) =>
    if account.isPlaceholder then
      match e.ledger.lookup job.userid job.bank with
      | .found account => e.rebind job s b account
      | .placeholder _ => e.done s .unavailable
      | .notFound =>
        if e.ledger.onlyPlaceholders then e.done s .unavailable
        else e.fault job s (.unresolvable job.userid)
    else e.prioritize job s account b

/-! ### Changes of queues -/

/-- Tells whether a job may change to a queue. -/
def updateQueue (e : Engine H) (job : Job) (s : JobStorage) (newQueue : Option String) :
    Step Unit H :=
  match e.boundAccount s with
  | none => e.fault job s .missingBinding
  | some (_, account) =>
    if !account.isPlaceholder && (e.queueFactor? account newQueue).isNone then
      e.reject job s (some account.key.bank) (.invalidQueue (newQueue.getD ""))
    else e.done s ()

/-- Takes the factor of a job's queue over after it changed. -/
def queueUpdated (e : Engine H) (job : Job) (s : JobStorage) : Step Unit H :=
  match e.boundAccount s with
  | none => e.fault job s .missingBinding
  | some (b, account) =>
    if account.isPlaceholder then e.done s ()
    else match e.queueFactor? account job.queue with
      | none => e.fault job s (.invalidQueue (job.queue.getD ""))
      | some factor =>
        (e.put (account.withQueueFactor factor)).done
          { s with binding := some { b with queueFactor := factor } } ()

end JobAdmission.Engine

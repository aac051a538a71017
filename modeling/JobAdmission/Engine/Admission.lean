import JobAdmission.Engine.Basic

/-!
# Admission

This module holds the first two steps of a job. `validate` tells whether the job may
be submitted at all; `newJob` binds it to its account, counts it as active there, and
writes the bank and the project that it was given back into its specification. A job of
a user whom the accounting feed has not told yet is bound to a placeholder, which counts
nothing.
-/

namespace JobAdmission.Engine

variable {H : Type}

/-! ### Validation -/

/-- The project that a job names, if it is known and its account does not permit it. -/
def forbiddenProject (e : Engine H) (job : Job) (account : Account) : Option String :=
  job.project.filter fun p => e.ledger.projects.contains p && !account.permitsProject p

/-- The first objection to a job of a real account: the account is out of use, the queue
is invalid, the account has no share, the project is not permitted, or a new job would
be one active job too many. -/
def objection (e : Engine H) (job : Job) (account : Account) : Option Rejection :=
  if !account.terms.enabled then some .disabled
  else if e.queueFactor? account job.queue = none then
    some (.invalidQueue (job.queue.getD ""))
  else if e.config.rejectZeroFairshare && account.terms.fairshare.isZero then
    some .zeroFairshare
  else match e.forbiddenProject job account with
    | some p => some (.invalidProject p)
    | none => if job.state = .new ∧ account.atActiveLimit then some .maxActiveJobs else none

/-- Tells whether a job may be submitted. -/
def validate (e : Engine H) (job : Job) (s : JobStorage) : Step Unit H :=
  match e.ledger.lookup job.userid job.bank with
  | .placeholder _ => e.done s ()
  | .notFound =>
    if e.ledger.onlyPlaceholders then (e.ensurePlaceholder job).done s ()
    else e.reject job s job.bank (.unknownAccount job.userid)
  | .found account => match e.objection job account with
    | some r => e.reject job s (some account.key.bank) r
    | none => e.done s ()

/-! ### Binding -/

/-- The binding that a new job starts from, with the engine that knows its account; and
whether its bank is the user's default, which the job does not name. A binding that the
job has already is kept. -/
def startBinding (e : Engine H) (job : Job) (s : JobStorage) : JobBinding × Bool × Engine H :=
  match s.binding with
  | some b => (b, false, e)
  | none => match e.ledger.lookup job.userid job.bank with
    | .found account => ({ account := account.handle }, job.bank.isNone, e)
    | .placeholder account => ({ account := account.handle }, false, e)
    | .notFound =>
      ({ account := e.ledger.placeholderHandle job.userid }, false, e.ensurePlaceholder job)

/-- What a new job's specification is given: the bank, if it is the user's default, and
the default project of the account, if the job names none. -/
def givenPatches (job : Job) (account : Account) (byDefault : Bool) : List JobspecPatch :=
  (if byDefault then [.bank account.key.bank] else [])
    ++ match job.project, account.terms.defaultProject with
      | none, some p => [.project p]
      | _, _ => []

/-- Admits a job to a real account, where its queue has this factor. -/
def enroll [Scheduler H] (e : Engine H) (job : Job) (s : JobStorage) (b : JobBinding)
    (account : Account) (byDefault : Bool) (factor : Int64) : Step Unit H :=
  let counted := if b.countedActive then account else account.countActive
  let e := e.put (counted.withQueueFactor factor)
  let s := { s with binding := some { b with countedActive := true, queueFactor := factor } }
  match e.patch job (givenPatches job account byDefault) with
  | (some err, e) => e.fault job s (.jobspecUpdate err)
  | (none, e) => (e.note job (some account.key.bank) .accept none).done s ()

/-- Binds a job to an account: to a placeholder as it is, to a detaching account not at
all, and to any other one if its queue is valid and it is not one active job too many. -/
def bindTo [Scheduler H] (e : Engine H) (job : Job) (s : JobStorage) (b : JobBinding)
    (account : Account) (byDefault : Bool) : Step Unit H :=
  if account.isPlaceholder then e.done { s with binding := some b } ()
  else if account.terms.runLimit = .detached then e.done { s with binding := none } ()
  else match e.queueFactor? account job.queue with
    | none => e.reject job s (some account.key.bank) (.invalidQueue (job.queue.getD ""))
    | some factor =>
      if !b.countedActive && account.atActiveLimit then
        e.reject job s (some account.key.bank) .maxActiveJobs
      else e.enroll job s b account byDefault factor

/-- Binds a new job to its account. -/
def newJob [Scheduler H] (e : Engine H) (job : Job) (s : JobStorage) : Step Unit H :=
  let (b, byDefault, e) := e.startBinding job s
  match e.ledger.objects[b.account]? with
  | none => e.fault job s .missingBinding
  | some account => e.bindTo job s b account byDefault

end JobAdmission.Engine

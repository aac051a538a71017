import JobAdmission.Audit
import JobAdmission.Config.Basic
import JobAdmission.Engine.Error
import JobAdmission.Feed.Batch
import JobAdmission.Job

/-!
# The engine

This module holds the engine: its configuration, the ledger, the host and the audit
trail; how it is built; what it does beside the steps of jobs; and the form of such a
step (`Step`): its outcome, and the engine and the job's storage after it.
-/

namespace JobAdmission

/-- The engine that admits jobs, throttles them and gives them priorities, at the requests
of a scheduler. -/
structure Engine (H : Type := Host) where
  /-- The configuration. -/
  config : Config
  /-- What is known of accounts, queues and projects. -/
  ledger : Ledger := .empty
  /-- The scheduler. -/
  host : H
  /-- The audit trail, if one is kept. -/
  audit : Option AuditTrail := none

/-- The label of the dependency that holds a job at its account's limit. -/
def heldLabel : String := "max-running-jobs-user-limit"

/-- A step of a job, as it ends. -/
structure Step (α : Type) (H : Type := Host) where
  /-- What the step answers. -/
  outcome : Except HandlerError α
  /-- The engine after the step. -/
  engine : Engine H
  /-- What is kept for the job after the step. -/
  storage : JobStorage

namespace Engine

/-! ### Building -/

/-- Why no engine is built. -/
inductive BuildError where
  /-- The conditions on the configuration fail. -/
  | invalidConfig (reason : ConfigError)
  deriving DecidableEq, Repr

/-- The wording of an error. -/
def BuildError.message : BuildError → String
  | .invalidConfig reason => "config invalid: " ++ reason.message

/-- An audit trail in memory, of the configured capacity. -/
def memoryTrail (config : Config) : AuditTrail := ⟨some config.auditCapacity.toNat, []⟩

/-- The engine of a valid configuration, over a ledger, with a new host. -/
def build (config : Config) (ledger : Ledger) (audit : Option AuditTrail) :
    Except BuildError Engine :=
  match config.validated with
  | .error e => .error (.invalidConfig e)
  | .ok config => .ok { config, ledger, host := {}, audit }

/-! ### Parts of a step -/

variable {H : Type}

/-- Keeps an audit event on a job. -/
def note (e : Engine H) (job : Job) (bank : Option String) (action : AuditAction)
    (detail : Option String) : Engine H :=
  { e with audit := e.audit.map fun t => t.record ⟨job.id, job.userid, bank, action, detail⟩ }

/-- Keeps an account. -/
def put (e : Engine H) (account : Account) : Engine H := { e with ledger := e.ledger.put account }

/-- Ends a step well. -/
def done (e : Engine H) (s : JobStorage) (a : α) : Step α H := ⟨.ok a, e, s⟩

/-- Ends a step with a rejection. -/
def reject (e : Engine H) (job : Job) (s : JobStorage) (bank : Option String) (r : Rejection) :
    Step α H :=
  ⟨.error (.rejected r), e.note job bank .reject (some r.message), s⟩

/-- Ends a step with a fault. -/
def fault (e : Engine H) (job : Job) (s : JobStorage) (f : Fault) : Step α H :=
  ⟨.error (.fault f), e.note job none .fault (some f.message), s⟩

/-- The binding of a job with the account that it is to. -/
def boundAccount (e : Engine H) (s : JobStorage) : Option (JobBinding × Account) :=
  s.binding.bind fun b => e.ledger.objects[b.account]?.map fun a => (b, a)

/-- The factor of a queue, or of none, for the jobs of an account; nothing if the queue
is invalid. -/
def queueFactor? (e : Engine H) (account : Account) (queue : Option String) : Option Int64 :=
  (QueueTable.resolve e.ledger.queues account.terms.queues queue).factor

/-- Makes sure that a job's user has a placeholder. -/
def ensurePlaceholder (e : Engine H) (job : Job) : Engine H :=
  { e with ledger := e.ledger.ensurePlaceholder job.userid e.config.placeholderFairshare }.note
    job none .placeholder none

/-- Changes the specification of a job, patch by patch, until the host refuses one. -/
def patch [Scheduler H] (e : Engine H) (job : Job) :
    List JobspecPatch → Option HostError × Engine H
  | [] => (none, e)
  | p :: ps => match Scheduler.request e.host (.updateJobspec job.id p) with
    | (some err, host) => (some err, { e with host })
    | (none, host) => patch { e with host } job ps

/-! ### Beside the steps of jobs -/

/-- All accounts as they are shown. -/
def query (e : Engine H) : List UserSnapshot := e.ledger.snapshot

/-- The written form of what a query shows. -/
def queryResponse (users : List UserSnapshot) : Json := .array (users.map UserSnapshot.encode)

/-- Applies rows of the accounting feed. -/
def ingest (e : Engine H) (kind : FeedKind) (rows : List Json) : FeedReport × Engine H :=
  let (report, ledger) := e.ledger.apply kind rows
  (report, { e with ledger })

/-- Has the host compute the priorities of all waiting jobs anew. -/
def reprioritize [Scheduler H] (e : Engine H) : Option HostError × Engine H :=
  let (err, host) := Scheduler.request e.host .reprioritizeAll
  (err, { e with host })

end Engine

end JobAdmission

import JobAdmission.Identity
import JobAdmission.Priority
import JobAdmission.Record.Fields

/-!
# Jobs

This module holds what the host tells about a job with every event, how that is read
from JSON data, and what the engine keeps for the job between events: the account that
the job is charged to, what of it is counted there, and the dependencies that the engine
gave it.
-/

namespace JobAdmission

/-- The state of a job with the scheduler. -/
inductive JobState where
  /-- Just submitted. -/
  | new
  /-- Waiting for dependencies. -/
  | depend
  /-- Waiting for a priority. -/
  | priority
  /-- Waiting for resources. -/
  | sched
  /-- Running. -/
  | run
  /-- Cleaning up. -/
  | cleanup
  /-- Finished. -/
  | inactive
  deriving DecidableEq, Repr

namespace JobState

/-- The name of a state. -/
def name : JobState → String
  | .new => "new"
  | .depend => "depend"
  | .priority => "priority"
  | .sched => "sched"
  | .run => "run"
  | .cleanup => "cleanup"
  | .inactive => "inactive"

/-- All states, in order. -/
def all : List JobState := [.new, .depend, .priority, .sched, .run, .cleanup, .inactive]

/-- Reads a state. -/
def decode : Decoder JobState := Decoder.variant (all.map fun s => (s.name, .plain s))

/-- The written form of a state. -/
def encode (s : JobState) : Json := .string s.name

end JobState

/-- What the host tells about a job. -/
structure Job where
  /-- The job. -/
  id : JobId
  /-- Its user. -/
  userid : UserId
  /-- The bank that the job names. -/
  bank : Option String := none
  /-- The queue that the job names. -/
  queue : Option String := none
  /-- The project that the job names. -/
  project : Option String := none
  /-- The urgency. -/
  urgency : Int32 := Priority.defaultUrgency
  /-- The state with the scheduler. -/
  state : JobState := .new
  /-- The job was given resources. -/
  allocObserved : Bool := false
  deriving DecidableEq, Repr

/-! ### Arguments -/

namespace Job

/-- What a specification names: bank, queue and project. -/
structure Named where
  /-- The bank. -/
  bank : Option String := none
  /-- The queue. -/
  queue : Option String := none
  /-- The project. -/
  project : Option String := none
  deriving DecidableEq, Repr

/-- Reads what a specification names. -/
def decodeSystem : Decoder Named :=
  Fields.decode
    (Named.mk <$> .optional "bank" none (Decoder.option Decoder.string)
      <*> .optional "queue" none (Decoder.option Decoder.string)
      <*> .optional "project" none (Decoder.option Decoder.string))
    "struct RawSystem"

/-- Reads the attributes of a specification. -/
def decodeAttributes : Decoder Named :=
  Fields.decode (.optional "system" {} decodeSystem) "struct RawAttributes"

/-- Reads a specification. -/
def decodeJobspec : Decoder Named :=
  Fields.decode (.optional "attributes" {} decodeAttributes) "struct RawJobspec"

/-- The event of a job's log that tells that it was given resources. -/
def allocEvent : String := "alloc"

/-- A job as its arguments tell it. -/
def ofArguments (id : JobId) (userid : UserId) (urgency : Int32) (state : JobState)
    (named : Named) (events : List String) : Job where
  id := id
  userid := userid
  bank := named.bank
  queue := named.queue
  project := named.project
  urgency := urgency
  state := state
  allocObserved := events.contains allocEvent

/-- Reads the arguments of a job: only its user is required. -/
def decode : Decoder Job :=
  Fields.decode
    (ofArguments <$> .optional "id" 0 Decoder.uint64
      <*> .required "userid" Decoder.uint32
      <*> .optional "urgency" Priority.defaultUrgency Decoder.int32
      <*> .optional "state" .new JobState.decode
      <*> .optional "jobspec" {} decodeJobspec
      <*> .optional "events" [] (Decoder.list Decoder.string))
    "struct RawJobArgs"

end Job

/-! ### What is kept for a job -/

/-- The account that a job is charged to, and what of the job is counted there. -/
structure JobBinding where
  /-- The account. -/
  account : Handle
  /-- The factor of the job's queue. -/
  queueFactor : Int64 := 0
  /-- The job is one of the account's active jobs. -/
  countedActive : Bool := false
  /-- The job has a running slot reserved. -/
  runReserved : Bool := false
  /-- The job is one of the account's running jobs. -/
  countedRunning : Bool := false
  deriving DecidableEq, Repr

/-- What the engine keeps for a job. -/
structure JobStorage where
  /-- The account that the job is charged to. -/
  binding : Option JobBinding := none
  /-- The labels of the dependencies that the engine gave the job. -/
  dependencies : List String := []
  deriving DecidableEq, Repr

namespace JobStorage

/-- The engine gave the job this dependency. -/
def hasDependency (r : JobStorage) (label : String) : Bool := r.dependencies.contains label

/-- Forgets a dependency. -/
def removeDependency (r : JobStorage) (label : String) : JobStorage :=
  { r with dependencies := r.dependencies.filter (· ≠ label) }

end JobStorage

end JobAdmission

import JobAdmission.Account.Basic
import JobAdmission.Queue
import JobAdmission.Text.CommaList

/-!
# Records of the accounting feed

This module holds the rows that the accounting feed delivers, their written form,
and what each is turned into: an account row into an update of the ledger, a queue row
into a definition, a project row into a name. A row can be well-formed and still be
refused (`RecordError`).
-/

namespace JobAdmission

/-- A row on an account. -/
structure AccountRecord where
  /-- The user. -/
  userid : UserId
  /-- The name of the bank. -/
  bank : String
  /-- The user's default bank; an empty one stands for the row's own bank. -/
  defaultBank : String
  /-- The user's share. -/
  fairshare : Binary64
  /-- The number of the limit on running jobs. -/
  maxRunningJobs : Int64
  /-- The limit on active jobs, zero for none. -/
  maxActiveJobs : Int64
  /-- The comma list of the permitted queues. -/
  queues : String
  /-- Zero if the account is out of use. -/
  active : Int64
  /-- The comma list of the permitted projects. -/
  projects : String
  /-- The default project; an empty one and `*` stand for none. -/
  defaultProject : Option String
  deriving DecidableEq, Repr

/-- A row on a queue. -/
structure QueueRecord where
  /-- The name of the queue. -/
  queue : String
  /-- The least number of nodes of a job. -/
  minNodesPerJob : Int64
  /-- The greatest number of nodes of a job. -/
  maxNodesPerJob : Int64
  /-- The greatest duration of a job. -/
  maxTimePerJob : Int64
  /-- The factor of the queue. -/
  priority : Int64
  deriving DecidableEq, Repr

/-- A row on a project. -/
structure ProjectRecord where
  /-- The name of the project. -/
  project : String
  deriving DecidableEq, Repr

/-- Why a row is refused. -/
inductive RecordError where
  /-- The data is no such row. -/
  | malformed (reason : DecodeError)
  /-- The bank has no name. -/
  | emptyBank
  /-- The fairshare is an infinity or no number. -/
  | infiniteFairshare (fairshare : Binary64)
  /-- The number stands for no limit on running jobs. -/
  | unsupportedRunLimit (number : Int64)
  /-- The number stands for no limit on active jobs. -/
  | unsupportedActiveLimit (number : Int64)
  /-- The queue has no name. -/
  | emptyQueueName
  /-- The project has no name. -/
  | emptyProjectName
  deriving DecidableEq, Repr

/-- The wording of a refusal. -/
def RecordError.message : RecordError → String
  | .malformed reason => reason.message
  | .emptyBank => "bank must not be empty"
  | .infiniteFairshare fairshare =>
    "fairshare " ++ Json.floatFormat.text fairshare ++ " is not a finite number"
  | .unsupportedRunLimit number => "unsupported max_running_jobs " ++ toString number.toInt
  | .unsupportedActiveLimit number => "unsupported max_active_jobs " ++ toString number.toInt
  | .emptyQueueName => "queue name must not be empty"
  | .emptyProjectName => "project name must not be empty"

/-! ### Accounts -/

namespace AccountRecord

/-- The fields of a row, in declared order. -/
def fields : Fields AccountRecord :=
  AccountRecord.mk <$> .required "userid" Decoder.uint32
    <*> .required "bank" Decoder.string
    <*> .requiredAs "default_bank" "def_bank" Decoder.string
    <*> .required "fairshare" Decoder.float
    <*> .required "max_running_jobs" Decoder.int64
    <*> .required "max_active_jobs" Decoder.int64
    <*> .optional "queues" "" Decoder.string
    <*> .required "active" Decoder.int64
    <*> .optional "projects" "" Decoder.string
    <*> .optionalAs "default_project" "def_project" none (Decoder.option Decoder.string)

/-- Reads a row. -/
def decode : Decoder AccountRecord := fields.decode "struct AccountRecord"

/-- The written fields of a row, in declared order. -/
def entries (r : AccountRecord) : List (String × Json) :=
  [("userid", .ofUInt32 r.userid),
   ("bank", .string r.bank),
   ("default_bank", .string r.defaultBank),
   ("fairshare", .ofFloat r.fairshare),
   ("max_running_jobs", .ofInt64 r.maxRunningJobs),
   ("max_active_jobs", .ofInt64 r.maxActiveJobs),
   ("queues", .string r.queues),
   ("active", .ofInt64 r.active),
   ("projects", .string r.projects),
   ("default_project", .ofOption .string r.defaultProject)]

/-- The written form of a row. -/
def encode (r : AccountRecord) : Json := .ofEntries r.entries

/-- The limit on active jobs that a number stands for: none for zero, and a positive
number stops at 32 bits. -/
def activeLimit? (n : Int64) : Option (Option UInt32) :=
  if n = 0 then some none
  else if 0 < n then some (some (UInt32.ofNat (min n.toInt.toNat RunLimit.maxSlots)))
  else none

/-- The default project that a row names, if it names one. -/
def namedProject (r : AccountRecord) : Option String :=
  r.defaultProject.filter fun p => p ≠ "" && p ≠ "*"

/-- The update that a row stands for. -/
def toUpdate (r : AccountRecord) : Except RecordError AccountUpdate :=
  if r.bank = "" then .error .emptyBank
  else if !r.fairshare.isFinite then .error (.infiniteFairshare r.fairshare)
  else match RunLimit.ofNumber? r.maxRunningJobs, activeLimit? r.maxActiveJobs with
    | none, _ => .error (.unsupportedRunLimit r.maxRunningJobs)
    | some _, none => .error (.unsupportedActiveLimit r.maxActiveJobs)
    | some runLimit, some activeLimit => .ok {
        key := ⟨r.userid, r.bank⟩
        defaultBank := if r.defaultBank = "" then r.bank else r.defaultBank
        terms :=
          { fairshare := r.fairshare, runLimit, activeLimit,
            queues := Text.commaList r.queues, enabled := r.active ≠ 0,
            projects := Text.commaList r.projects, defaultProject := r.namedProject } }

/-- The update that data stands for. -/
def readUpdate (v : Json) : Except RecordError AccountUpdate :=
  match decode v with
  | .error e => .error (.malformed e)
  | .ok r => r.toUpdate

end AccountRecord

/-! ### Queues -/

namespace QueueRecord

/-- The fields of a row, in declared order. -/
def fields : Fields QueueRecord :=
  QueueRecord.mk <$> .required "queue" Decoder.string
    <*> .optional "min_nodes_per_job" 0 Decoder.int64
    <*> .optional "max_nodes_per_job" 0 Decoder.int64
    <*> .optional "max_time_per_job" 0 Decoder.int64
    <*> .required "priority" Decoder.int64

/-- Reads a row. -/
def decode : Decoder QueueRecord := fields.decode "struct QueueRecord"

/-- The written fields of a row, in declared order. -/
def entries (r : QueueRecord) : List (String × Json) :=
  [("queue", .string r.queue),
   ("min_nodes_per_job", .ofInt64 r.minNodesPerJob),
   ("max_nodes_per_job", .ofInt64 r.maxNodesPerJob),
   ("max_time_per_job", .ofInt64 r.maxTimePerJob),
   ("priority", .ofInt64 r.priority)]

/-- The written form of a row. -/
def encode (r : QueueRecord) : Json := .ofEntries r.entries

/-- The definition that a row stands for. -/
def toDef (r : QueueRecord) : Except RecordError QueueDef :=
  if r.queue = "" then .error .emptyQueueName
  else .ok ⟨r.queue, r.minNodesPerJob, r.maxNodesPerJob, r.maxTimePerJob, r.priority⟩

/-- The definition that data stands for. -/
def readDef (v : Json) : Except RecordError QueueDef :=
  match decode v with
  | .error e => .error (.malformed e)
  | .ok r => r.toDef

end QueueRecord

/-! ### Projects -/

namespace ProjectRecord

/-- The one field of a row. -/
def fields : Fields ProjectRecord := ProjectRecord.mk <$> .required "project" Decoder.string

/-- Reads a row. -/
def decode : Decoder ProjectRecord := fields.decode "struct ProjectRecord"

/-- The written field of a row. -/
def entries (r : ProjectRecord) : List (String × Json) := [("project", .string r.project)]

/-- The written form of a row. -/
def encode (r : ProjectRecord) : Json := .ofEntries r.entries

/-- The name that a row stands for. -/
def toName (r : ProjectRecord) : Except RecordError String :=
  if r.project = "" then .error .emptyProjectName else .ok r.project

/-- The name that data stands for. -/
def readName (v : Json) : Except RecordError String :=
  match decode v with
  | .error e => .error (.malformed e)
  | .ok r => r.toName

end ProjectRecord

end JobAdmission

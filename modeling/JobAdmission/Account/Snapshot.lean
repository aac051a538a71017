import JobAdmission.Account.Basic
import JobAdmission.Record.Fields

/-!
# Snapshots of accounts

This module holds the form in which accounts are shown to the outside: one snapshot
per account, gathered by user, with a written form and a way to read it back.
-/

namespace JobAdmission

/-- An account as it is shown. -/
structure AccountSnapshot where
  /-- The name of the bank. -/
  bankName : String
  /-- The user's share. -/
  fairshare : Binary64
  /-- The number of the limit on running jobs. -/
  maxRunJobs : Int64
  /-- The number of running jobs. -/
  curRunJobs : UInt32
  /-- The limit on active jobs, zero for none. -/
  maxActiveJobs : UInt32
  /-- The number of active jobs. -/
  curActiveJobs : UInt32
  /-- The held jobs, oldest first. -/
  heldJobs : List JobId
  /-- The permitted queues. -/
  queues : List String
  /-- The factor of the queue last settled for a job. -/
  queueFactor : Int64
  /-- The account is in use. -/
  active : Bool
  /-- The permitted projects. -/
  projects : List String
  /-- The default project. -/
  defProject : Option String
  deriving DecidableEq, Repr

/-- The accounts of a user as they are shown. -/
structure UserSnapshot where
  /-- The user. -/
  userid : UserId
  /-- The user's accounts, in ascending order of banks. -/
  banks : List AccountSnapshot
  deriving DecidableEq, Repr

/-- The account as it is shown. A placeholder shows the number of a missing limit. -/
def Account.snapshot (a : Account) : AccountSnapshot where
  bankName := a.key.bank
  fairshare := a.terms.fairshare
  maxRunJobs := if a.isPlaceholder then RunLimit.missingNumber else a.terms.runLimit.toNumber
  curRunJobs := a.usage.running
  maxActiveJobs := a.terms.activeLimit.getD 0
  curActiveJobs := a.usage.active
  heldJobs := a.usage.gate.held
  queues := a.terms.queues
  queueFactor := a.usage.queueFactor
  active := a.terms.enabled
  projects := a.terms.projects
  defProject := a.terms.defaultProject

/-! ### Written and read -/

namespace AccountSnapshot

/-- The fields of a snapshot, in declared order. -/
def fields : Fields AccountSnapshot :=
  AccountSnapshot.mk <$> .required "bank_name" Decoder.string
    <*> .required "fairshare" Decoder.float
    <*> .required "max_run_jobs" Decoder.int64
    <*> .required "cur_run_jobs" Decoder.uint32
    <*> .required "max_active_jobs" Decoder.uint32
    <*> .required "cur_active_jobs" Decoder.uint32
    <*> .required "held_jobs" (Decoder.list Decoder.uint64)
    <*> .required "queues" (Decoder.list Decoder.string)
    <*> .required "queue_factor" Decoder.int64
    <*> .required "active" Decoder.boolean
    <*> .optional "projects" [] (Decoder.list Decoder.string)
    <*> .optional "def_project" none (Decoder.option Decoder.string)

/-- Reads a snapshot. -/
def decode : Decoder AccountSnapshot := fields.decode "struct AccountSnapshot"

/-- The written fields of a snapshot, in declared order. -/
def entries (s : AccountSnapshot) : List (String × Json) :=
  [("bank_name", .string s.bankName),
   ("fairshare", .ofFloat s.fairshare),
   ("max_run_jobs", .ofInt64 s.maxRunJobs),
   ("cur_run_jobs", .ofUInt32 s.curRunJobs),
   ("max_active_jobs", .ofUInt32 s.maxActiveJobs),
   ("cur_active_jobs", .ofUInt32 s.curActiveJobs),
   ("held_jobs", .array (s.heldJobs.map .ofUInt64)),
   ("queues", .ofStrings s.queues),
   ("queue_factor", .ofInt64 s.queueFactor),
   ("active", .boolean s.active),
   ("projects", .ofStrings s.projects),
   ("def_project", .ofOption .string s.defProject)]

/-- The written form of a snapshot. -/
def encode (s : AccountSnapshot) : Json := .ofEntries s.entries

end AccountSnapshot

namespace UserSnapshot

/-- The fields of a user's snapshot, in declared order. -/
def fields : Fields UserSnapshot :=
  UserSnapshot.mk <$> .required "userid" Decoder.uint32
    <*> .required "banks" (Decoder.list AccountSnapshot.decode)

/-- Reads a user's snapshot. -/
def decode : Decoder UserSnapshot := fields.decode "struct UserSnapshot"

/-- The written fields of a user's snapshot, in declared order. -/
def entries (s : UserSnapshot) : List (String × Json) :=
  [("userid", .ofUInt32 s.userid), ("banks", .array (s.banks.map AccountSnapshot.encode))]

/-- The written form of a user's snapshot. -/
def encode (s : UserSnapshot) : Json := .ofEntries s.entries

end UserSnapshot

end JobAdmission

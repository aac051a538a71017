import JobAdmission.Host
import JobAdmission.Record.Error

/-!
# Errors of the engine

This module holds the reasons for which a step of a job does not succeed. A rejection
is the answer to the submitting user, a fault is an exception raised against the job.
-/

namespace JobAdmission

/-- Why a job is rejected. -/
inductive Rejection where
  /-- The arguments of the job are none. -/
  | unpack (reason : DecodeError)
  /-- There is no account for the job, though accounts are known. -/
  | unknownAccount (userid : UserId)
  /-- The account is out of use. -/
  | disabled
  /-- The account does not permit the queue. -/
  | invalidQueue (queue : String)
  /-- The account does not permit the project. -/
  | invalidProject (project : String)
  /-- The account has as many active jobs as it may have. -/
  | maxActiveJobs
  /-- The account has no share. -/
  | zeroFairshare
  deriving DecidableEq, Repr

/-- The text in front of a reason for which arguments are refused. -/
def unpackPhrase : String := "unable to unpack job arguments: "

/-- The text in front of a user without an account. -/
def noAccountPhrase : String := "cannot find user/bank or user/default bank entry for uid: "

/-- The wording of a rejection. -/
def Rejection.message : Rejection → String
  | .unpack reason => unpackPhrase ++ reason.message
  | .unknownAccount userid => noAccountPhrase ++ toString userid.toNat
  | .disabled => "user/bank entry has been disabled from flux-accounting DB"
  | .invalidQueue queue => "Queue not valid for user: " ++ queue
  | .invalidProject project => "Project not valid for user: " ++ project
  | .maxActiveJobs => "user has max active jobs"
  | .zeroFairshare => "user fairshare value is 0"

/-- Why a step of an admitted job fails. -/
inductive Fault where
  /-- The arguments of the job are none. -/
  | unpack (reason : DecodeError)
  /-- The job is not bound to an account. -/
  | missingBinding
  /-- There is still no account for the job, though accounts are known now. -/
  | unresolvable (userid : UserId)
  /-- The account does not permit the queue any more. -/
  | invalidQueue (queue : String)
  /-- The host refused to change the specification. -/
  | jobspecUpdate (reason : HostError)
  /-- The host refused to hold the job. -/
  | dependencyAdd (reason : HostError)
  /-- The host refused to release a job. -/
  | dependencyRemove (reason : HostError)
  deriving DecidableEq, Repr

/-- The wording of a fault. -/
def Fault.message : Fault → String
  | .unpack reason => unpackPhrase ++ reason.message
  | .missingBinding => "bank info is missing"
  | .unresolvable userid => noAccountPhrase ++ toString userid.toNat
  | .invalidQueue queue => "queue not valid for user: " ++ queue
  | .jobspecUpdate reason => "failed to update jobspec: " ++ reason.message
  | .dependencyAdd reason => "failed to add job dependency: " ++ reason.message
  | .dependencyRemove reason => "failed to remove job dependency: " ++ reason.message

/-- Why a step does not succeed. -/
inductive HandlerError where
  /-- The job is rejected. -/
  | rejected (reason : Rejection)
  /-- An exception is raised against the job. -/
  | fault (reason : Fault)
  deriving DecidableEq, Repr

/-- The wording of an error. -/
def HandlerError.message : HandlerError → String
  | .rejected reason => reason.message
  | .fault reason => reason.message

end JobAdmission

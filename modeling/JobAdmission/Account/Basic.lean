import JobAdmission.Account.Gate
import JobAdmission.Account.RunLimit
import JobAdmission.Numeric.Binary64

/-!
# Accounts

This module holds accounts. What an account grants comes from the accounting feed
(`Terms`); what its jobs take up is counted as they pass (`Usage`). An update of the
feed replaces the terms and leaves the usage alone. A placeholder stands in for a
user whose accounts the feed has not told yet.
-/

namespace JobAdmission

/-- What an account grants. -/
structure Terms where
  /-- The user's share, the main factor of priorities. -/
  fairshare : Binary64
  /-- The limit on running jobs. -/
  runLimit : RunLimit
  /-- The limit on active jobs, if there is one. -/
  activeLimit : Option UInt32
  /-- The permitted queues. -/
  queues : List String
  /-- The account is in use. -/
  enabled : Bool
  /-- The permitted projects. -/
  projects : List String
  /-- The project of jobs that name none. -/
  defaultProject : Option String
  deriving DecidableEq, Repr

/-- What the jobs of an account take up. -/
structure Usage where
  /-- The number of running jobs. -/
  running : Counter := 0
  /-- The number of active jobs. -/
  active : Counter := 0
  /-- The gate of the running slots. -/
  gate : Gate := {}
  /-- The factor of the queue that was last settled for a job, for information. -/
  queueFactor : Int64 := 0

/-- Where an account comes from. -/
inductive AccountKind where
  /-- From the accounting feed. -/
  | real
  /-- From a job whose user the feed has not told yet. -/
  | placeholder
  deriving DecidableEq, Repr

/-- The account of a user in a bank. -/
structure Account where
  /-- What it is known by. -/
  key : AccountKey
  /-- How many accounts that were known by the same were created before it. -/
  serial : Nat := 0
  /-- Where it comes from. -/
  kind : AccountKind
  /-- What it grants. -/
  terms : Terms
  /-- What its jobs take up. -/
  usage : Usage := {}

/-- An account as the feed tells it. -/
structure AccountUpdate where
  /-- What the account is known by. -/
  key : AccountKey
  /-- The user's default bank. -/
  defaultBank : String
  /-- What the account grants. -/
  terms : Terms
  deriving DecidableEq, Repr

namespace Account

/-- What tells the account from all others. -/
def handle (a : Account) : Handle := ⟨a.key, a.serial⟩

/-- The bank of every placeholder. -/
def placeholderBank : String := "unknown"

/-- A new account from the feed. -/
def ofUpdate (u : AccountUpdate) : Account where
  key := u.key
  kind := .real
  terms := u.terms

/-- A new placeholder: it limits nothing and permits nothing. -/
def placeholder (userid : UserId) (fairshare : Binary64) : Account where
  key := ⟨userid, placeholderBank⟩
  kind := .placeholder
  terms :=
    { fairshare, runLimit := .unlimited, activeLimit := none, queues := [], enabled := true,
      projects := [], defaultProject := none }

/-- The account under new terms. A placeholder becomes real. -/
def refresh (a : Account) (terms : Terms) : Account := { a with kind := .real, terms }

/-- The account is a placeholder. -/
def isPlaceholder (a : Account) : Bool := a.kind == .placeholder

/-- The account has as many active jobs as it may have. -/
def atActiveLimit (a : Account) : Bool :=
  match a.terms.activeLimit with
  | none => false
  | some limit => decide (limit ≤ a.usage.active)

/-- The account permits the project. -/
def permitsProject (a : Account) (project : String) : Bool := a.terms.projects.contains project

/-! ### Changes of the usage -/

/-- The account with another gate. -/
def withGate (a : Account) (gate : Gate) : Account := { a with usage := { a.usage with gate } }

/-- The account with another factor of the queue last settled. -/
def withQueueFactor (a : Account) (queueFactor : Int64) : Account :=
  { a with usage := { a.usage with queueFactor } }

/-- The gate's decision on a job, and the account after it. -/
def enterGate (a : Account) (job : JobId) : Gate.Decision × Account :=
  let (decision, gate) := a.usage.gate.enter job a.usage.running a.terms.runLimit.cap
  (decision, a.withGate gate)

/-- The account with one active job more. -/
def countActive (a : Account) : Account :=
  { a with usage := { a.usage with active := a.usage.active.up } }

end Account

end JobAdmission

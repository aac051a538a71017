import JobAdmission.Identity
import Std.Data.ExtTreeSet

/-!
# The scheduler host

This module holds the requests that the engine makes of the scheduler that hosts it
(`Scheduler`), and a host that carries them out by writing them down: it keeps the log of
accepted requests and the dependencies that are outstanding. Each kind of request can be
armed to be refused once. A refused request leaves no trace in the log.
-/

namespace JobAdmission

/-- A change of a job's stored specification. -/
inductive JobspecPatch where
  /-- Sets the bank. -/
  | bank (name : String)
  /-- Sets the project. -/
  | project (name : String)
  deriving DecidableEq, Repr

namespace JobspecPatch

/-- The path of the changed value. -/
def key : JobspecPatch → String
  | .bank _ => "attributes.system.bank"
  | .project _ => "attributes.system.project"

/-- The new value. -/
def value : JobspecPatch → String
  | .bank name => name
  | .project name => name

end JobspecPatch

/-- A named reason for which a job has to wait. -/
structure Dependency where
  /-- The waiting job. -/
  job : JobId
  /-- The name of the reason. -/
  label : String
  deriving DecidableEq, Repr

namespace Dependency

/-- By job, then by label. -/
instance : Ord Dependency := ⟨compareLex (compareOn job) (compareOn label)⟩

instance : Std.TransOrd Dependency :=
  inferInstanceAs (Std.TransCmp (compareLex (compareOn job) (compareOn label)))

instance : Std.LawfulEqOrd Dependency where
  eq_of_compare {a b} h := by
    replace h : compareLex (compareOn job) (compareOn label) a b = .eq := h
    simp only [compareLex_eq_eq, compareOn, Std.LawfulEqOrd.compare_eq_iff_eq] at h
    cases a
    cases b
    simp_all

end Dependency

/-- A request of the engine. -/
inductive HostRequest where
  /-- Changes the specification of a job. -/
  | updateJobspec (job : JobId) (patch : JobspecPatch)
  /-- Makes a job wait. -/
  | addDependency (job : JobId) (label : String)
  /-- Takes a reason to wait off a job. -/
  | removeDependency (job : JobId) (label : String)
  /-- Has the priorities of all waiting jobs computed anew. -/
  | reprioritizeAll
  deriving DecidableEq, Repr

/-- The kinds of requests. -/
inductive HostOp where
  /-- Changes of specifications. -/
  | updateJobspec
  /-- Additions of dependencies. -/
  | addDependency
  /-- Removals of dependencies. -/
  | removeDependency
  /-- Demands for new priorities. -/
  | reprioritize
  deriving DecidableEq, Repr

/-- The name of a kind of requests in a refusal. -/
def HostOp.name : HostOp → String
  | .updateJobspec => "UpdateJobspec"
  | .addDependency => "AddDependency"
  | .removeDependency => "RemoveDependency"
  | .reprioritize => "Reprioritize"

/-- The kind of a request. -/
def HostRequest.op : HostRequest → HostOp
  | .updateJobspec _ _ => .updateJobspec
  | .addDependency _ _ => .addDependency
  | .removeDependency _ _ => .removeDependency
  | .reprioritizeAll => .reprioritize

/-- Why the host does not carry a request out. -/
inductive HostError where
  /-- Requests of this kind were to be refused once. -/
  | refused (op : HostOp)
  /-- The dependency to be removed is not outstanding. -/
  | noDependency (job : JobId) (label : String)
  /-- A reason of the scheduler's own. -/
  | other (reason : String)
  deriving DecidableEq, Repr

/-- The wording of an error. -/
def HostError.message : HostError → String
  | .refused op => "host request failed: " ++ op.name ++ " refused"
  | .noDependency job label =>
    "host request failed: job " ++ toString job.toNat ++ " has no dependency " ++ label
  | .other reason => "host request failed: " ++ reason

/-- A scheduler that the engine can make requests of. -/
class Scheduler (H : Type) where
  /-- Makes a request: what keeps it from being carried out, if anything does, and the
  scheduler after it. -/
  request : H → HostRequest → Option HostError × H

/-- A host that writes down what it is asked for. -/
structure Host where
  /-- The accepted requests since the log was last taken, oldest first. -/
  log : List HostRequest := []
  /-- The outstanding dependencies. -/
  dependencies : Std.ExtTreeSet Dependency := ∅
  /-- The kinds of requests whose next one is refused. -/
  armed : HostOp → Bool := fun _ => false

namespace Host

/-- Has the next request of a kind refused. -/
def arm (h : Host) (op : HostOp) : Host :=
  { h with armed := fun o => o == op || h.armed o }

/-- Refuses requests of a kind no longer. -/
def disarm (h : Host) (op : HostOp) : Host :=
  { h with armed := fun o => o != op && h.armed o }

/-- The job waits for this reason. -/
def hasDependency (h : Host) (job : JobId) (label : String) : Bool :=
  h.dependencies.contains ⟨job, label⟩

/-- The host after an accepted request. -/
def accept (h : Host) (r : HostRequest) : Host :=
  { h with
    log := h.log ++ [r]
    dependencies := match r with
      | .addDependency job label => h.dependencies.insert ⟨job, label⟩
      | .removeDependency job label => h.dependencies.erase ⟨job, label⟩
      | _ => h.dependencies }

/-- Why a request of no armed kind is not carried out: only the removal of a dependency
that is not outstanding is not. -/
def objection (h : Host) : HostRequest → Option HostError
  | .removeDependency job label =>
    if h.hasDependency job label then none else some (.noDependency job label)
  | _ => none

/-- Makes a request: what keeps it from being carried out, if anything does, and the
host after it. -/
def request (h : Host) (r : HostRequest) : Option HostError × Host :=
  if h.armed r.op then (some (.refused r.op), h.disarm r.op)
  else match h.objection r with
    | some e => (some e, h)
    | none => (none, h.accept r)

instance : Scheduler Host := ⟨request⟩

/-- Takes the log. -/
def takeLog (h : Host) : List HostRequest × Host := (h.log, { h with log := [] })

/-- The jobs whose dependencies were removed, as far as the log goes back. -/
def releasedJobs (h : Host) : List JobId :=
  h.log.filterMap fun
    | .removeDependency job _ => some job
    | _ => none

end Host

end JobAdmission

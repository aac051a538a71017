import JobAdmission.Engine.Dispatch
import JobAdmission.Proofs.Run
import Mathlib.Data.Finset.Card

/-!
# Runs

This module holds the world that the engine works in: the engine itself, the jobs that
came to it so far, and what is kept for those that are still live. An event is a batch of
the accounting feed, a demand for new priorities, a change of the scheduler of its own, or
a call on a job; `after` is the world after it. The scheduler is any type with requests
(`Scheduler`), so it may refuse whatever it likes.

A run is a list of events, each of which meets the world that the events before it leave.
What the host promises of the order of its calls is a rule on the next event
(`HostOrder`): a job is announced once, passes the throttle once, asks for priorities only
after that, runs only after it has one and is not held, and leaves once. Under a stronger
rule the scheduler does not refuse to release a job either (`ReleasingOrder`). A world is
reached under a rule if a run that obeys it leads there from an empty ledger (`Reached`),
and what each event keeps holds in every such world (`Reached.invariant`).
-/

namespace JobAdmission

/-! ### Live jobs -/

/-- How far a live job has come. -/
inductive Phase where
  /-- It was announced. -/
  | fresh
  /-- The throttle failed on it. -/
  | stopped
  /-- It passed the throttle or is held, and has no priority yet. -/
  | waiting
  /-- It has a priority. -/
  | ready
  /-- It runs. -/
  | running
  deriving DecidableEq, Repr

namespace Phase

/-- The phase after a call and its answer. -/
def next : Phase → Topic → Except HandlerError Reply → Phase
  | .fresh, .depend, .ok _ => .waiting
  | .fresh, .depend, .error _ => .stopped
  | .waiting, .priority, .ok (.priority _) => .ready
  | .waiting, .priorityGet, .ok (.priority _) => .ready
  | .ready, .run, _ => .running
  | p, _, _ => p

/-- The calls that are due in a phase. A job that the throttle failed on has only its
queue changed, or leaves. -/
def admits (p : Phase) : Topic → Bool
  | .validate | .new => false
  | .depend => p = .fresh
  | .priority | .priorityGet => p = .waiting ∨ p = .ready ∨ p = .running
  | .run => p = .ready
  | .inactive | .updateQueue | .queueUpdated => true

end Phase

/-- A job between its announcement and its leaving. -/
structure LiveJob where
  /-- Its user. -/
  userid : UserId
  /-- The bank that it names. -/
  bank : Option String
  /-- How far it has come. -/
  phase : Phase
  /-- What the engine keeps for it. -/
  storage : JobStorage

/-! ### Events and worlds -/

/-- What may happen next. -/
inductive Event (H : Type) where
  /-- The feed delivers rows. -/
  | feed (kind : FeedKind) (rows : List Json)
  /-- New priorities are demanded. -/
  | reprioritize
  /-- The scheduler changes on its own. -/
  | scheduler (host : H)
  /-- The host calls on a job. -/
  | call (topic : Topic) (args : Json) (job : Job)

/-- The terms that an event grants an account, in order. -/
def Event.granted {H : Type} (k : AccountKey) : Event H → List Terms
  | .feed .accounts rows =>
    ((accepted AccountRecord.readUpdate rows).filter fun u => u.key = k).map (·.terms)
  | _ => []

/-- The job that leaves in an event. -/
def Event.leaving {H : Type} : Event H → Option JobId
  | .call .inactive _ job => some job.id
  | _ => none

/-- The engine, and the jobs that the host told it of. -/
structure World (H : Type) where
  /-- The engine. -/
  engine : Engine H
  /-- The jobs that were ever announced. -/
  arrived : Finset JobId
  /-- The jobs that did not leave yet. -/
  live : JobId → Option LiveJob

namespace World

variable {H : Type}

/-- The world before anything was told, with an empty ledger. -/
def start (config : Config) (host : H) (audit : Option AuditTrail) : World H where
  engine := { config, host, audit }
  arrived := ∅
  live := fun _ => none

/-- What is kept for a job; nothing, unless it is live. -/
def storage (w : World H) (j : JobId) : JobStorage := ((w.live j).map (·.storage)).getD {}

/-- The account kept under a key. -/
def account (w : World H) (k : AccountKey) : Option Account := w.engine.ledger.account? k

theorem account_start (config : Config) (host : H) (audit : Option AuditTrail) (k : AccountKey) :
    (start config host audit).account k = none := rfl

/-- The job waits in the queue of the account that it is bound to. -/
def holds (w : World H) (j : JobId) : Bool :=
  (w.engine.boundAccount (w.storage j)).any fun (_, a) => a.usage.gate.isHeld j

/-- What becomes of a job in a call that ends like this. -/
def liveAfter (w : World H) (topic : Topic) (job : Job) (step : Step Reply H) : Option LiveJob :=
  match topic, w.live job.id with
  | .validate, l => l
  | .inactive, _ => none
  | .new, none => some ⟨job.userid, job.bank, .fresh, step.storage⟩
  | _, l => l.map fun l =>
      { l with phase := l.phase.next topic step.outcome, storage := step.storage }

variable [Scheduler H]

/-- The call on a job in this world. -/
def step (w : World H) (topic : Topic) (args : Json) (job : Job) : Step Reply H :=
  w.engine.stepOf topic args job (w.storage job.id)

/-- The world after an event. -/
def after (w : World H) : Event H → World H
  | .feed kind rows => { w with engine := (w.engine.ingest kind rows).2 }
  | .reprioritize => { w with engine := w.engine.reprioritize.2 }
  | .scheduler host => { w with engine := { w.engine with host } }
  | .call topic args job =>
    { engine := (w.step topic args job).engine
      arrived := if topic = .new then insert job.id w.arrived else w.arrived
      live := Function.update w.live job.id
        (w.liveAfter topic job (w.step topic args job)) }

/-- The world after events, one by one. -/
def afterAll (w : World H) (es : List (Event H)) : World H := es.foldl after w

/-! ### Rules -/

/-- The call on a live job is due: it comes from the job's own user and bank and in its
phase, a job that is held does not run, and exactly the jobs that run were given
resources. -/
structure Due (w : World H) (topic : Topic) (job : Job) (l : LiveJob) : Prop where
  userid : l.userid = job.userid
  bank : l.bank = job.bank
  phase : l.phase.admits topic
  notHeld : topic = .run → w.holds job.id = false
  alloc : topic = .inactive → (job.allocObserved = true ↔ l.phase = .running)

/-- What the host promises of the next event. The feed never tells an account to detach
its jobs, a job is announced once, and calls on live jobs are due. -/
def HostOrder (w : World H) : Event H → Prop
  | .feed .accounts rows =>
    ∀ u ∈ accepted AccountRecord.readUpdate rows, u.terms.runLimit ≠ .detached
  | .feed _ _ | .reprioritize | .scheduler _ | .call .validate _ _ => True
  | .call .new _ job => job.id ∉ w.arrived
  | .call topic _ job => ∃ l ∈ w.live job.id, w.Due topic job l

/-- In this event, the scheduler refuses to release a job. -/
def refuses (w : World H) : Event H → Bool
  | .call .inactive args job => match (w.step .inactive args job).outcome with
    | .error (.fault (.dependencyRemove _)) => true
    | _ => false
  | _ => false

/-- The next event is in the host's order, and the scheduler does not refuse to release a
job in it. -/
def ReleasingOrder (w : World H) (ev : Event H) : Prop := w.HostOrder ev ∧ w.refuses ev = false

theorem ReleasingOrder.hostOrder (w : World H) (ev : Event H) (h : w.ReleasingOrder ev) :
    w.HostOrder ev := h.1

/-- The events obey a rule, each in the world that it meets. -/
abbrev Obeys (rule : World H → Event H → Prop) (w : World H) (es : List (Event H)) : Prop :=
  Run.Obeys after rule w es

/-- A run under a rule leads to this world from an empty ledger. -/
def Reached (rule : World H → Event H → Prop) (w : World H) : Prop :=
  ∃ config host audit es, (start config host audit).Obeys rule es ∧
    (start config host audit).afterAll es = w

theorem afterAll_append (w : World H) (es es' : List (Event H)) :
    w.afterAll (es ++ es') = (w.afterAll es).afterAll es' := List.foldl_append

theorem obeys_append {rule : World H → Event H → Prop} {w : World H} {es es' : List (Event H)} :
    w.Obeys rule (es ++ es') ↔ w.Obeys rule es ∧ (w.afterAll es).Obeys rule es' := Run.obeys_append

theorem Obeys.mono {rule rule' : World H → Event H → Prop} {w : World H} {es : List (Event H)}
    (h : w.Obeys rule es) (weaker : ∀ w ev, rule w ev → rule' w ev) : w.Obeys rule' es :=
  Run.Obeys.mono h weaker

theorem Reached.mono {rule rule' : World H → Event H → Prop} {w : World H} (h : w.Reached rule)
    (weaker : ∀ w ev, rule w ev → rule' w ev) : w.Reached rule' := by
  obtain ⟨config, host, audit, es, ho, hw⟩ := h
  exact ⟨config, host, audit, es, ho.mono weaker, hw⟩

/-- What holds at the start and is kept by every event holds in every reached world. -/
theorem Reached.invariant {rule : World H → Event H → Prop} {I : World H → Prop}
    (start : ∀ config host audit, I (start config host audit))
    (keep : ∀ w ev, I w → rule w ev → I (w.after ev)) {w : World H} (h : w.Reached rule) : I w := by
  obtain ⟨config, host, audit, es, ho, rfl⟩ := h
  exact ho.invariant keep (start config host audit)

/-! ### Rules can be checked -/

instance (w : World H) (topic : Topic) (job : Job) (l : LiveJob) :
    Decidable (w.Due topic job l) :=
  decidable_of_iff
    (l.userid = job.userid ∧ l.bank = job.bank ∧ l.phase.admits topic = true ∧
      (topic = .run → w.holds job.id = false) ∧
      (topic = .inactive → (job.allocObserved = true ↔ l.phase = .running)))
    ⟨fun ⟨h₁, h₂, h₃, h₄, h₅⟩ => ⟨h₁, h₂, h₃, h₄, h₅⟩,
      fun h => ⟨h.userid, h.bank, h.phase, h.notHeld, h.alloc⟩⟩

instance (w : World H) : DecidablePred w.HostOrder
  | .feed .accounts _ => inferInstanceAs (Decidable (∀ u ∈ _, _))
  | .feed .queues _ | .feed .projects _ | .reprioritize | .scheduler _ | .call .validate _ _ =>
    .isTrue trivial
  | .call .new _ _ => inferInstanceAs (Decidable (_ ∉ _))
  | .call .depend _ _ | .call .priority _ _ | .call .priorityGet _ _ | .call .run _ _
  | .call .inactive _ _ | .call .updateQueue _ _ | .call .queueUpdated _ _ =>
    inferInstanceAs (Decidable (∃ l ∈ _, _))

instance (w : World H) : DecidablePred w.ReleasingOrder := fun ev =>
  inferInstanceAs (Decidable (w.HostOrder ev ∧ w.refuses ev = false))

/-! ### A sample -/

namespace Sample

/-- An account of a user. -/
def key : AccountKey := ⟨1, "physics"⟩

/-- The record of the account, with this limit on running jobs. -/
def record (limit : Int64) : Json :=
  .ofEntries
    [("userid", .ofUInt32 key.userid), ("bank", .string key.bank),
     ("default_bank", .string key.bank), ("fairshare", .ofFloat (.ofRatio false 1 2)),
     ("max_running_jobs", .ofInt64 limit), ("max_active_jobs", .ofInt64 0), ("active", .ofInt64 1)]

/-- The record of the user's account in a bank, with this limit on active jobs. -/
def recordIn (bank : String) (limit : Int64) : Json :=
  .ofEntries
    [("userid", .ofUInt32 key.userid), ("bank", .string bank), ("default_bank", .string bank),
     ("fairshare", .ofFloat (.ofRatio false 1 2)), ("max_running_jobs", .ofInt64 0),
     ("max_active_jobs", .ofInt64 limit), ("active", .ofInt64 1)]

/-- A job of the user in that bank. -/
def job (id : JobId) : Job where
  id := id
  userid := key.userid
  bank := some key.bank

/-- A job of the user that names no bank. -/
def bankless (id : JobId) : Job := { job id with bank := none }

/-- The world before anything was told. -/
def start : World Host := .start Config.default {} none

/-- Two jobs come to an account with one running slot: the first one runs, and the second one
is held. -/
def events : List (Event Host) :=
  [.feed .accounts [record 1], .call .new .null (job 7), .call .new .null (job 8),
   .call .depend .null (job 7), .call .depend .null (job 8), .call .priority .null (job 7),
   .call .run .null (job 7)]

/-- Then the account is granted a second slot. -/
def raised : List (Event Host) := events ++ [.feed .accounts [record 2]]

/-- The sample is a run, in which no release is refused. -/
theorem obeys : start.Obeys ReleasingOrder events := by decide +kernel

theorem reached : (start.afterAll events).Reached ReleasingOrder :=
  ⟨Config.default, {}, none, events, obeys, rfl⟩

end Sample

end World

end JobAdmission

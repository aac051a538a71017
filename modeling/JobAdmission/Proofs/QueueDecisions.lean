import JobAdmission.Proofs.Reports
import JobAdmission.Proofs.Turns
import JobAdmission.Proofs.World

/-!
# Decisions on queues agree

Five steps look at the queue of a job: the one that tells whether the job may be submitted, its
announcement, its priority where it is moved to a real account, and the two that follow a change of
its queue. This module proves that they do not contradict each other on the jobs of an account
(`Engine.queues_agree`). A queue that is defined and that the account does not permit
(`Ledger.forbiddenQueue`) is called invalid by each of them, whatever else there is to object, and
no other queue is by any. Those that take the factor of the queue over take the same one
(`Ledger.definedFactor`). So a queue that was approved for a job is taken over later, as long as the
feed tells nothing and the job stays with its account.

Each step says what it makes of the queue in a lemma of its own (`Engine.bindTo_settles` and the
like). That an approval lasts follows from what no call changes (`Ledger.GrowsTo`).
-/

namespace JobAdmission

/-! ### Queues -/

namespace Ledger

/-- The queue, if it is defined and the account does not permit it. -/
def forbiddenQueue (l : Ledger) (a : Account) (queue : Option String) : Option String :=
  queue.filter fun name => l.queues.contains name && !a.terms.queues.contains name

/-- The factor by which a queue is defined; 0 if it is not, and if there is none. -/
def definedFactor (l : Ledger) (queue : Option String) : Int64 :=
  ((queue.bind fun name => l.queues[name]?).map (·.priority)).getD 0

/-- What is forbidden stays forbidden as long as the ledger only grows. -/
theorem GrowsTo.forbiddenQueue_eq {l l' : Ledger} {a a' : Account} (h : l.GrowsTo l')
    (used : a.UsedAs a') (queue : Option String) :
    l'.forbiddenQueue a' queue = l.forbiddenQueue a queue := by
  obtain ⟨usage, rfl⟩ := used
  rw [forbiddenQueue, forbiddenQueue, h.queues]

end Ledger

namespace HandlerError

/-- The queue that an error calls invalid. -/
def blamedQueue : HandlerError → Option String
  | .rejected (.invalidQueue queue) => some queue
  | .fault (.invalidQueue queue) => some queue
  | _ => none

end HandlerError

namespace Step

variable {H α β : Type} {step : Step α H} {l : Ledger} {a : Account} {queue : Option String}

/-- The queue that a step calls invalid. -/
def blamedQueue (step : Step α H) : Option String :=
  match step.outcome with
  | .error err => err.blamedQueue
  | .ok _ => none

/-- The step calls the queue invalid where it is forbidden, and where it ends well, the job is bound
to the account with the factor of the queue. -/
structure Settles (l : Ledger) (a : Account) (queue : Option String) (step : Step α H) : Prop where
  /-- What is forbidden is called invalid. -/
  blames : step.blamedQueue = l.forbiddenQueue a queue
  /-- The factor of the queue is taken over. -/
  stores : ∀ x, step.outcome = .ok x → ∃ b, step.storage.binding = some b ∧ b.account = a.handle ∧
    b.queueFactor = l.definedFactor queue

theorem blamedQueue_map (f : α → β) : (step.map f).blamedQueue = step.blamedQueue := by
  obtain ⟨outcome, engine, storage⟩ := step
  cases outcome <;> rfl

theorem Settles.map (h : step.Settles l a queue) (f : α → β) : (step.map f).Settles l a queue := by
  refine ⟨(blamedQueue_map f).trans h.blames, fun y hy => ?_⟩
  obtain ⟨outcome, engine, storage⟩ := step
  cases outcome with
  | error => cases hy
  | ok x => exact h.stores x rfl

end Step

namespace Engine

variable {H : Type} {e : Engine H} {a : Account} {b : JobBinding} {job : Job} {s : JobStorage}

/-- A queue is forbidden, or has the factor by which it is defined. -/
theorem queueFactor?_cases (e : Engine H) (a : Account) (queue : Option String) :
    (e.ledger.forbiddenQueue a queue = some (queue.getD "") ∧ e.queueFactor? a queue = none) ∨
    (e.ledger.forbiddenQueue a queue = none ∧
      e.queueFactor? a queue = some (e.ledger.definedFactor queue)) := by
  rw [queueFactor?, Ledger.forbiddenQueue, Ledger.definedFactor]
  cases queue with
  | none => exact .inr ⟨rfl, rfl⟩
  | some name =>
    rw [QueueTable.resolve, Option.filter_some, Std.ExtTreeMap.contains_eq_isSome_getElem?,
      Option.bind_some]
    cases e.ledger.queues[name]? with
    | none => exact .inr ⟨rfl, rfl⟩
    | some q =>
      cases permitted : a.terms.queues.contains name with
      | false => exact .inl ⟨rfl, rfl⟩
      | true => exact .inr ⟨rfl, rfl⟩

/-! ### Steps that look at a queue -/

/-- A job of an account that is in use is told of its queue before all else. -/
theorem objection_blames (enabled : a.terms.enabled = true) :
    (e.objection job a).bind (fun r => (HandlerError.rejected r).blamedQueue) =
      e.ledger.forbiddenQueue a job.queue := by
  rw [objection, enabled]
  obtain ⟨forbidden, invalid⟩ | ⟨allowed, valid⟩ := e.queueFactor?_cases a job.queue
  · rw [forbidden, invalid]
    rfl
  · rw [allowed, valid]
    simp only [Bool.not_true, Bool.false_eq_true, reduceCtorEq, if_false]
    split
    · rfl
    · split
      · rfl
      · split <;> rfl

theorem validate_blames (found : e.ledger.lookup job.userid job.bank = .found a)
    (enabled : a.terms.enabled = true) :
    (e.validate job s).blamedQueue = e.ledger.forbiddenQueue a job.queue := by
  rw [← objection_blames enabled, validate, found]
  simp only
  cases e.objection job a <;> rfl

variable [Scheduler H]

/-- A job that is enrolled gets the factor that it is enrolled with. -/
theorem enroll_settles (byDefault : Bool) (hk : b.account = a.handle)
    (allowed : e.ledger.forbiddenQueue a job.queue = none) :
    (e.enroll job s b a byDefault (e.ledger.definedFactor job.queue)).Settles e.ledger a
      job.queue := by
  unfold enroll
  simp only
  split
  · exact ⟨allowed.symm, by rintro x ⟨⟩⟩
  · exact ⟨allowed.symm, fun x hx => ⟨_, rfl, hk, rfl⟩⟩

theorem bindTo_settles (byDefault : Bool) (hk : b.account = a.handle)
    (real : a.isPlaceholder = false) (attached : a.terms.runLimit ≠ .detached) :
    (e.bindTo job s b a byDefault).Settles e.ledger a job.queue := by
  rw [bindTo, real, if_neg Bool.false_ne_true, if_neg attached]
  obtain ⟨forbidden, invalid⟩ | ⟨allowed, valid⟩ := e.queueFactor?_cases a job.queue
  · rw [invalid]
    exact ⟨forbidden.symm, by rintro x ⟨⟩⟩
  · rw [valid]
    simp only
    split
    · exact ⟨allowed.symm, by rintro x ⟨⟩⟩
    · exact enroll_settles byDefault hk allowed

/-- A job that is announced comes to the account that it is bound to, or that is found for it. -/
theorem newJob_settles (ha : e.ledger.objects[a.handle]? = some a)
    (real : a.isPlaceholder = false) (attached : a.terms.runLimit ≠ .detached)
    (comes : (∃ b, s.binding = some b ∧ b.account = a.handle) ∨
      s.binding = none ∧ e.ledger.lookup job.userid job.bank = .found a) :
    (e.newJob job s).Settles e.ledger a job.queue := by
  obtain ⟨b, byDefault, start, hk⟩ : ∃ b byDefault, e.startBinding job s = (b, byDefault, e) ∧
      b.account = a.handle := by
    rcases comes with ⟨b, hb, hk⟩ | ⟨hs, found⟩
    · exact ⟨b, false, e.startBinding_of_bound job hb, hk⟩
    · exact ⟨{ account := a.handle }, job.bank.isNone, startBinding_of_found hs found, rfl⟩
  rw [newJob, start]
  simp only [hk, ha]
  exact bindTo_settles byDefault hk real attached

theorem handle_throttle (e : Engine H) (job : Job) (a : Account) :
    (e.throttle job a).2.1.handle = a.handle := by
  obtain ⟨r, a', hg, ht⟩ | ⟨a', host, hg, -, ht⟩ | ⟨a', err, host, hg, -, ht⟩ :=
    e.throttle_cases job a
  all_goals
    obtain ⟨gate, rfl⟩ := Account.eq_withGate_of_enterGate hg
    rw [ht]
    rfl

/-- A job that is moved to a real account gets the factor of its queue there. -/
theorem rebind_settles (e : Engine H) (job : Job) (s : JobStorage) (b : JobBinding) (a : Account) :
    (e.rebind job s b a).Settles e.ledger a job.queue := by
  unfold rebind
  obtain ⟨forbidden, invalid⟩ | ⟨allowed, valid⟩ := e.queueFactor?_cases a job.queue
  · rw [invalid]
    exact ⟨forbidden.symm, by rintro x ⟨⟩⟩
  · have same := e.handle_throttle job a
    rw [valid]
    generalize e.throttle job a = throttled at same ⊢
    rcases throttled with ⟨err | decision, a', host⟩
    · exact ⟨allowed.symm, by rintro x ⟨⟩⟩
    · simp only
      split
      · exact ⟨allowed.symm, by rintro x ⟨⟩⟩
      · refine ⟨allowed.symm, fun x hx => ?_⟩
        cases decision with
        | proceed | hold => exact ⟨_, rfl, same, rfl⟩

theorem priority_settles {p : Account} (hb : e.boundAccount s = some (b, p))
    (hp : p.isPlaceholder = true) (found : e.ledger.lookup job.userid job.bank = .found a) :
    (e.priority job s).Settles e.ledger a job.queue := by
  unfold priority
  simp only [hb, hp, found, if_true]
  exact e.rebind_settles job s b a

omit [Scheduler H] in
/-- A proposal is rejected exactly for a forbidden queue. -/
theorem updateQueue_blames {queue : Option String} (hb : e.boundAccount s = some (b, a))
    (real : a.isPlaceholder = false) :
    (e.updateQueue job s queue).blamedQueue = e.ledger.forbiddenQueue a queue := by
  unfold updateQueue
  simp only [hb, real]
  obtain ⟨forbidden, invalid⟩ | ⟨allowed, valid⟩ := e.queueFactor?_cases a queue
  · rw [forbidden, invalid]
    rfl
  · rw [allowed, valid]
    rfl

omit [Scheduler H] in
theorem queueUpdated_settles (hb : e.boundAccount s = some (b, a)) (hk : b.account = a.handle)
    (real : a.isPlaceholder = false) :
    (e.queueUpdated job s).Settles e.ledger a job.queue := by
  unfold queueUpdated
  simp only [hb, real]
  obtain ⟨forbidden, invalid⟩ | ⟨allowed, valid⟩ := e.queueFactor?_cases a job.queue
  · rw [invalid]
    exact ⟨forbidden.symm, by rintro x ⟨⟩⟩
  · rw [valid]
    exact ⟨allowed.symm, fun x hx => ⟨_, rfl, hk, rfl⟩⟩

/-! ### Approvals -/

omit [Scheduler H] in
/-- A queue is approved if the account is a placeholder, or if it does not forbid it. -/
theorem updateQueue_ok_iff {queue : Option String} (hb : e.boundAccount s = some (b, a)) :
    (e.updateQueue job s queue).outcome = .ok () ↔
      a.isPlaceholder = true ∨ e.ledger.forbiddenQueue a queue = none := by
  unfold updateQueue
  simp only [hb]
  cases real : a.isPlaceholder with
  | true => simp [done]
  | false =>
    obtain ⟨forbidden, invalid⟩ | ⟨allowed, valid⟩ := e.queueFactor?_cases a queue
    · simp [forbidden, invalid, reject]
    · simp [allowed, valid, done]

omit [Scheduler H] in
/-- A changed queue is taken over under the same conditions. -/
theorem queueUpdated_ok_iff (hb : e.boundAccount s = some (b, a)) :
    (e.queueUpdated job s).outcome = .ok () ↔
      a.isPlaceholder = true ∨ e.ledger.forbiddenQueue a job.queue = none := by
  unfold queueUpdated
  simp only [hb]
  cases real : a.isPlaceholder with
  | true => simp [done]
  | false =>
    obtain ⟨forbidden, invalid⟩ | ⟨allowed, valid⟩ := e.queueFactor?_cases a job.queue
    · simp [forbidden, invalid, fault]
    · simp [allowed, valid, done]

omit [Scheduler H] in
/-- What is approved for a job is taken over as long as the ledger only grows and the job stays with
its account. -/
theorem queueUpdated_of_approved {e' : Engine H} {queue : Option String} {b' : JobBinding}
    {job' : Job} {s' : JobStorage} (grows : e.ledger.GrowsTo e'.ledger)
    (hb : e.boundAccount s = some (b, a)) (ok : (e.updateQueue job s queue).outcome = .ok ())
    (hb' : s'.binding = some b') (hk : b'.account = b.account) (hq : job'.queue = queue) :
    (e'.queueUpdated job' s').outcome = .ok () := by
  obtain ⟨a', ha', used⟩ := grows.objects _ a (boundAccount_eq_some.mp hb).2
  have bound : e'.boundAccount s' = some (b', a') := boundAccount_eq_some.mpr ⟨hb', hk ▸ ha'⟩
  rw [queueUpdated_ok_iff bound, hq, grows.forbiddenQueue_eq used queue]
  obtain ⟨usage, rfl⟩ := used
  exact (updateQueue_ok_iff hb).mp ok

/-! ### Agreement -/

/-- In this call, the engine looks at this queue for a job of the account. -/
inductive LooksAt (e : Engine H) (a : Account) (queue : Option String) :
    Topic → Json → Job → JobStorage → Prop where
  /-- A job of the account is to be submitted, and the account is in use. -/
  | submitted {args : Json} {job : Job} {s : JobStorage}
    (found : e.ledger.lookup job.userid job.bank = .found a) (enabled : a.terms.enabled = true)
    (hq : job.queue = queue) : LooksAt e a queue .validate args job s
  /-- A job is announced that is bound to the account already, or that is bound to nothing and
  finds it. -/
  | announced {args : Json} {job : Job} {s : JobStorage}
    (comes : (∃ b, s.binding = some b ∧ b.account = a.handle) ∨
      s.binding = none ∧ e.ledger.lookup job.userid job.bank = .found a)
    (hq : job.queue = queue) : LooksAt e a queue .new args job s
  /-- A job that is bound to a placeholder asks for its priority and finds the account. -/
  | moved {topic : Topic} {args : Json} {job : Job} {s : JobStorage} {b : JobBinding} {p : Account}
    (ht : topic.onPriority) (hb : e.boundAccount s = some (b, p)) (hp : p.isPlaceholder = true)
    (found : e.ledger.lookup job.userid job.bank = .found a) (hq : job.queue = queue) :
    LooksAt e a queue topic args job s
  /-- The queue is proposed for a job that is bound to the account. -/
  | proposed {args : Json} {job : Job} {s : JobStorage} {b : JobBinding} (hb : s.binding = some b)
    (hk : b.account = a.handle) (hq : proposedQueue args = queue) :
    LooksAt e a queue .updateQueue args job s
  /-- The queue of a job that is bound to the account changed. -/
  | changed {args : Json} {job : Job} {s : JobStorage} {b : JobBinding} (hb : s.binding = some b)
    (hk : b.account = a.handle) (hq : job.queue = queue) :
    LooksAt e a queue .queueUpdated args job s

/-- All that the engine decides on a queue for jobs of the account agrees. -/
structure QueueAgreement (e : Engine H) (a : Account) (queue : Option String) : Prop where
  /-- Every call that looks at the queue calls it invalid if it is forbidden, and none does if it
  is not. -/
  verdict : ∀ topic args job s, e.LooksAt a queue topic args job s →
    (e.stepOf topic args job s).blamedQueue = e.ledger.forbiddenQueue a queue
  /-- Those that take its factor over take the same one. -/
  factor : ∀ topic args job s reply, e.LooksAt a queue topic args job s → topic ≠ .validate →
    topic ≠ .updateQueue → (e.stepOf topic args job s).outcome = .ok reply →
      ∃ b, (e.stepOf topic args job s).storage.binding = some b ∧ b.account = a.handle ∧
        b.queueFactor = e.ledger.definedFactor queue
  /-- If it is approved for a job, a change to it does not fail as long as the feed tells nothing
  and the job stays with its account. -/
  approved : ∀ job s b ts job' s' b', s.binding = some b →
    (e.updateQueue job s queue).outcome = .ok () → (∀ kind rows, .feed kind rows ∉ ts) →
      s'.binding = some b' → b'.account = b.account → job'.queue = queue →
        (((e.updateQueue job s queue).engine.takeAll ts).queueUpdated job' s').outcome = .ok ()

variable {topic : Topic} {args : Json} {queue : Option String} {k : AccountKey}

/-- A call that takes the factor of a queue over settles it. -/
theorem LooksAt.settles (h : e.LooksAt a queue topic args job s)
    (ha : e.ledger.objects[a.handle]? = some a) (real : a.isPlaceholder = false)
    (attached : a.terms.runLimit ≠ .detached) (hv : topic ≠ .validate) (hu : topic ≠ .updateQueue) :
    (e.stepOf topic args job s).Settles e.ledger a queue := by
  cases h with
  | submitted => exact absurd rfl hv
  | proposed => exact absurd rfl hu
  | announced comes hq =>
    subst hq
    exact (newJob_settles ha real attached comes).map _
  | moved ht hb hp found hq =>
    subst hq
    rcases ht with rfl | rfl
    · exact (priority_settles hb hp found).map _
    · exact (priority_settles hb hp found).map _
  | changed hb hk hq =>
    subst hq
    exact (queueUpdated_settles (boundAccount_eq_some.mpr ⟨hb, hk ▸ ha⟩) hk real).map _

/-- The decisions on a queue agree, for each account that is kept, is real and does not detach its
jobs, and for each queue or none. -/
theorem queues_agree (ha : e.ledger.account? k = some a)
    (real : a.isPlaceholder = false) (attached : a.terms.runLimit ≠ .detached)
    (queue : Option String) : e.QueueAgreement a queue := by
  have ha := Ledger.object_of_account? ha
  refine ⟨fun topic args job s looks => ?_, fun topic args job s reply looks hv hu ok =>
    (looks.settles ha real attached hv hu).stores reply ok, ?_⟩
  · by_cases hv : topic = .validate
    · subst hv
      cases looks with
      | submitted found enabled hq =>
        subst hq
        exact (Step.blamedQueue_map _).trans (validate_blames found enabled)
      | moved ht => simp [Topic.onPriority] at ht
    · by_cases hu : topic = .updateQueue
      · subst hu
        cases looks with
        | proposed hb hk hq =>
          subst hq
          exact (Step.blamedQueue_map _).trans
            (updateQueue_blames (boundAccount_eq_some.mpr ⟨hb, hk ▸ ha⟩) real)
        | moved ht => simp [Topic.onPriority] at ht
      · exact (looks.settles ha real attached hv hu).blames
  · intro job s b ts job' s' b' hb ok quiet hb' hk hq
    -- the proposal itself changes nothing
    have same := (e.updateQueue_effect job s queue).1
    have grows := (e.updateQueue job s queue).engine.growsTo_takeAll quiet
    rw [same] at grows
    cases hp : e.boundAccount s with
    | none =>
      unfold updateQueue at ok
      simp [hp, fault] at ok
    | some bound =>
      obtain ⟨b₀, p⟩ := bound
      obtain rfl : b₀ = b := Option.some.inj ((boundAccount_eq_some.mp hp).1.symm.trans hb)
      exact queueUpdated_of_approved grows hp ok hb' hk hq

/-! ### A sample -/

namespace Sample

/-- A record of an account without a share that permits one queue. -/
def strict : AccountRecord where
  userid := 1
  bank := "physics"
  defaultBank := "physics"
  fairshare := .zero false
  maxRunningJobs := 1
  maxActiveJobs := 1
  queues := "batch"
  active := 1
  projects := ""
  defaultProject := none

/-- A job comes before the feed tells of its user, and another one after that. -/
def queued : List (Turn Host) :=
  [.call .new .null (World.Sample.bankless 7) {},
   .feed .accounts [strict.encode],
   .feed .queues
    [QueueRecord.encode ⟨"batch", 0, 0, 0, 2⟩, QueueRecord.encode ⟨"debug", 0, 0, 0, 9⟩],
   .call .new .null { World.Sample.job 8 with queue := some "batch" } {}]

/-- What is kept for a job that is bound to an account. -/
def boundTo (h : Handle) : JobStorage := { binding := some { account := h } }

end Sample

/-- In the sample, one of two queues is forbidden to jobs of an account that has no share and no
room for another active job. Each kind of call looks at it. -/
theorem sample_queues_agree :
    ∃ a, (Sample.built.takeAll Sample.queued).ledger.account? World.Sample.key = some a ∧
      a.isPlaceholder = false ∧ a.terms.runLimit ≠ .detached ∧
      a.terms.fairshare.isZero = true ∧ a.atActiveLimit = true ∧
      (Sample.built.takeAll Sample.queued).ledger.forbiddenQueue a (some "debug") = some "debug" ∧
      (∀ topic ∈ [Topic.validate, .new, .priority, .updateQueue, .queueUpdated], ∃ args job s,
        (Sample.built.takeAll Sample.queued).LooksAt a (some "debug") topic args job s) ∧
      (Sample.built.takeAll Sample.queued).QueueAgreement a (some "debug") := by
  have kept : ((Sample.built.takeAll Sample.queued).ledger.account? World.Sample.key).map
      (fun a => (a.isPlaceholder, a.terms.runLimit, a.terms.enabled,
        a.terms.fairshare.isZero && a.atActiveLimit, a.terms.queues)) =
      some (false, .capped 1, true, true, ["batch"]) := by decide +kernel
  have stands : ((Sample.built.takeAll Sample.queued).ledger.account? ⟨1, "unknown"⟩).map
      Account.isPlaceholder = some true := by decide +kernel
  have bank : (Sample.built.takeAll Sample.queued).ledger.bankFor 1 none = some "physics" := by
    decide +kernel
  obtain ⟨a, ha, shown⟩ := Option.map_eq_some_iff.mp kept
  obtain ⟨p, hp, placeholder⟩ := Option.map_eq_some_iff.mp stands
  simp only [Prod.mk.injEq, Bool.and_eq_true] at shown
  obtain ⟨real, limit, enabled, ⟨shareless, full⟩, permitted⟩ := shown
  have defined : (Sample.built.takeAll Sample.queued).ledger.queues.contains "debug" = true := by
    decide +kernel
  have forbidden : (Sample.built.takeAll Sample.queued).ledger.forbiddenQueue a (some "debug") =
      some "debug" := by
    simp [Ledger.forbiddenQueue, defined, permitted]
  have attached : a.terms.runLimit ≠ .detached := by simp [limit]
  have found : (Sample.built.takeAll Sample.queued).ledger.lookup 1 none = .found a := by
    rw [Ledger.lookup_of_some bank ha, real, if_neg Bool.false_ne_true]
  refine ⟨a, ha, real, attached, shareless, full, forbidden, ?_,
    queues_agree ha real attached (some "debug")⟩
  intro topic looks
  simp only [List.mem_cons, List.not_mem_nil, or_false] at looks
  have proposal : proposedQueue (.ofEntries [("value", .string "debug")]) = some "debug" := by
    decide +kernel
  rcases looks with rfl | rfl | rfl | rfl | rfl
  · exact ⟨.null, { World.Sample.bankless 9 with queue := some "debug" }, {},
      .submitted found enabled rfl⟩
  · exact ⟨.null, { World.Sample.bankless 9 with queue := some "debug" }, {},
      .announced (.inr ⟨rfl, found⟩) rfl⟩
  · exact ⟨.null, { World.Sample.bankless 7 with queue := some "debug" },
      Sample.boundTo p.handle,
      .moved (.inl rfl) (boundAccount_eq_some.mpr ⟨rfl, Ledger.object_of_account? hp⟩) placeholder
        found rfl⟩
  · exact ⟨_, World.Sample.job 8, Sample.boundTo a.handle, .proposed rfl rfl proposal⟩
  · exact ⟨.null, { World.Sample.job 8 with queue := some "debug" }, Sample.boundTo a.handle,
      .changed rfl rfl rfl⟩

end Engine

end JobAdmission

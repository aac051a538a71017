import JobAdmission.Engine.Admission
import JobAdmission.Engine.Prioritize
import JobAdmission.Proofs.Requests

/-!
# What steps do

This module says once, for each step of a job, what it does to the ledger and to what is
kept for the job, what it answers, which of its requests the scheduler accepts, and where
that leaves the scheduler: one relation a step, with one constructor for each way in which
the step can end (`depend_effect` and the like). The audit trail is left out. All that is
proved of runs rests on these relations, and no proof about runs opens a step again.
-/

namespace JobAdmission.Engine

variable {H : Type}

/-! ### Parts of steps -/

@[simp] theorem note_ledger (e : Engine H) (job : Job) (bank : Option String)
    (action : AuditAction) (detail : Option String) :
    (e.note job bank action detail).ledger = e.ledger := rfl

@[simp] theorem note_host (e : Engine H) (job : Job) (bank : Option String)
    (action : AuditAction) (detail : Option String) :
    (e.note job bank action detail).host = e.host := rfl

theorem boundAccount_eq_some {e : Engine H} {s : JobStorage} {b : JobBinding} {a : Account} :
    e.boundAccount s = some (b, a) ↔
      s.binding = some b ∧ e.ledger.objects[b.account]? = some a := by
  simp only [boundAccount, Option.bind_eq_some_iff, Option.map_eq_some_iff, Prod.mk.injEq]
  constructor
  · rintro ⟨b', hb, a', ha, rfl, rfl⟩
    exact ⟨hb, ha⟩
  · rintro ⟨hb, ha⟩
    exact ⟨b, hb, a, ha, rfl, rfl⟩

theorem boundAccount_of_unbound {e : Engine H} {s : JobStorage} (hs : s.binding = none) :
    e.boundAccount s = none := by
  rw [boundAccount, hs]
  rfl

variable [Scheduler H]

/-- The requests that patches are made by. -/
def patchRequests (job : Job) (ps : List JobspecPatch) : List HostRequest :=
  ps.map (.updateJobspec job.id)

/-- Patches are requests in order, and leave all but the scheduler alone. -/
theorem patch_eq (e : Engine H) (job : Job) (ps : List JobspecPatch) :
    e.patch job ps = ((Scheduler.serve e.host (patchRequests job ps)).1,
      { e with host := (Scheduler.serve e.host (patchRequests job ps)).2 }) := by
  induction ps generalizing e with
  | nil => rfl
  | cons p ps ih =>
    rw [patch, patchRequests, List.map_cons, Scheduler.serve]
    rcases Scheduler.request e.host (.updateJobspec job.id p) with ⟨_ | err, host⟩
    · exact ih { e with host }
    · rfl

theorem serve_of_patch {e e' : Engine H} {job : Job} {ps : List JobspecPatch}
    {err : Option HostError} (h : e.patch job ps = (err, e')) :
    Scheduler.serve e.host (patchRequests job ps) = (err, e'.host) ∧ e'.ledger = e.ledger := by
  rw [patch_eq] at h
  cases h
  exact ⟨rfl, rfl⟩

/-- The answer of a step that ends with patches. -/
def patchAnswer (a : α) : Option HostError → Except HandlerError α
  | none => .ok a
  | some err => .error (.fault (.jobspecUpdate err))

/-- The request that a decision of a gate asks for. -/
def holdRequests (job : Job) : Gate.Decision → List HostRequest
  | .proceed _ => []
  | .hold => [.addDependency job.id heldLabel]

/-! ### Admission -/

omit [Scheduler H] in
/-- Validation leaves all accounts alone, but can create a placeholder. -/
theorem validate_ledger (e : Engine H) (job : Job) (s : JobStorage) :
    (e.validate job s).engine.ledger = e.ledger ∨
      (e.validate job s).engine.ledger =
        e.ledger.ensurePlaceholder job.userid e.config.placeholderFairshare := by
  unfold validate
  split
  · exact .inl rfl
  · split
    · exact .inr rfl
    · exact .inl rfl
  · split
    · exact .inl rfl
    · exact .inl rfl

omit [Scheduler H] in
/-- Validation makes no request. -/
theorem validate_host (e : Engine H) (job : Job) (s : JobStorage) :
    (e.validate job s).engine.host = e.host := by
  unfold validate
  split
  · rfl
  · split
    · rfl
    · rfl
  · split
    · rfl
    · rfl

omit [Scheduler H] in
/-- Validation keeps nothing for a job. -/
theorem validate_storage (e : Engine H) (job : Job) (s : JobStorage) :
    (e.validate job s).storage = s := by
  unfold validate
  split
  · rfl
  · split
    · rfl
    · rfl
  · split
    · rfl
    · rfl

omit [Scheduler H] in
/-- A job that is bound already starts from that binding. -/
theorem startBinding_of_bound (e : Engine H) (job : Job) {s : JobStorage} {b : JobBinding}
    (hs : s.binding = some b) : e.startBinding job s = (b, false, e) := by
  rw [startBinding, hs]

omit [Scheduler H] in
/-- A job that is bound to nothing starts at the real account that is found for it. -/
theorem startBinding_of_found {e : Engine H} {job : Job} {s : JobStorage} {a : Account}
    (hs : s.binding = none) (hf : e.ledger.lookup job.userid job.bank = .found a) :
    e.startBinding job s = ({ account := a.handle }, job.bank.isNone, e) := by
  rw [startBinding, hs]
  simp only [hf]

omit [Scheduler H] in
/-- A job that is bound to nothing starts at the account that is found for it, or else at the
one that is kept for placeholders. -/
theorem startBinding_cases (e : Engine H) (job : Job) {s : JobStorage} (hs : s.binding = none) :
    (∃ a, e.ledger.lookup job.userid job.bank = .found a ∧
      e.startBinding job s = ({ account := a.handle }, job.bank.isNone, e)) ∨
    (∃ a, e.ledger.lookup job.userid job.bank = .placeholder a ∧
      e.startBinding job s = ({ account := a.handle }, false, e)) ∨
    e.ledger.lookup job.userid job.bank = .notFound ∧
      e.startBinding job s =
        ({ account := e.ledger.placeholderHandle job.userid }, false, e.ensurePlaceholder job) := by
  unfold startBinding
  rw [hs]
  simp only
  split
  · rename_i a hl
    exact .inl ⟨a, hl, rfl⟩
  · rename_i a hl
    exact .inr (.inl ⟨a, hl, rfl⟩)
  · rename_i hl
    exact .inr (.inr ⟨hl, rfl⟩)

omit [Scheduler H] in
/-- A job that is bound to nothing starts from a binding that counts nothing; a
placeholder can be created for it. -/
theorem startBinding_unbound (e : Engine H) (job : Job) {s : JobStorage} (hs : s.binding = none) :
    ∃ h, (e.startBinding job s).1 = { account := h } ∧
      ((e.startBinding job s).2.2.ledger = e.ledger ∨
        (e.startBinding job s).2.2.ledger =
          e.ledger.ensurePlaceholder job.userid e.config.placeholderFairshare) := by
  obtain ⟨a, -, start⟩ | ⟨a, -, start⟩ | ⟨-, start⟩ := e.startBinding_cases job hs
  · rw [start]
    exact ⟨_, rfl, .inl rfl⟩
  · rw [start]
    exact ⟨_, rfl, .inl rfl⟩
  · rw [start]
    exact ⟨_, rfl, .inr rfl⟩

omit [Scheduler H] in
/-- Finding a binding to start from makes no request. -/
theorem startBinding_host (e : Engine H) (job : Job) (s : JobStorage) :
    (e.startBinding job s).2.2.host = e.host := by
  unfold startBinding
  split
  · rfl
  · split
    · rfl
    · rfl
    · rfl

/-- Why an account does not take a job: the queue is invalid, or the job would be one active
job too many. -/
def TurnsAway (l : Ledger) (job : Job) (b : JobBinding) (a : Account) : Prop :=
  a.isPlaceholder = false ∧
    ((QueueTable.resolve l.queues a.terms.queues job.queue).factor = none ∨
      b.countedActive = false ∧ a.atActiveLimit = true)

/-- What the announcement of a job does, from a ledger and a binding to start from. The flag
tells whether the bank is the user's default, which the job does not name. -/
inductive NewJobEffect (h : H) (job : Job) (l : Ledger) (b : JobBinding) (byDefault : Bool)
    (s : JobStorage) :
    Except HandlerError Unit → List HostRequest → H → Ledger → JobStorage → Prop where
  /-- There is no account, the queue is invalid, or there are too many active jobs. -/
  | rejected {err : HandlerError}
    (away : ∀ a, l.objects[b.account]? = some a → TurnsAway l job b a) :
    NewJobEffect h job l b byDefault s (.error err) [] h l s
  /-- The account is a placeholder. -/
  | placed {a : Account} (ha : l.objects[b.account]? = some a) (hp : a.isPlaceholder = true) :
    NewJobEffect h job l b byDefault s (.ok ()) [] h l { s with binding := some b }
  /-- The account detaches its jobs. -/
  | detached {a : Account} (ha : l.objects[b.account]? = some a)
    (hp : a.isPlaceholder = false) (hd : a.terms.runLimit = .detached) :
    NewJobEffect h job l b byDefault s (.ok ()) [] h l { s with binding := none }
  /-- The account counts the job. -/
  | enrolled {a : Account} {factor : Int64} {ps : List JobspecPatch} {err : Option HostError}
    {host : H} (ha : l.objects[b.account]? = some a) (hp : a.isPlaceholder = false)
    (room : b.countedActive = false → a.atActiveLimit = false)
    (hq : (QueueTable.resolve l.queues a.terms.queues job.queue).factor = some factor)
    (hps : ps = givenPatches job a byDefault)
    (hpatch : Scheduler.serve h (patchRequests job ps) = (err, host)) :
    NewJobEffect h job l b byDefault s (patchAnswer () err)
      (Scheduler.accepted h (patchRequests job ps)) host
      (l.put ((if b.countedActive then a else a.countActive).withQueueFactor factor))
      { s with binding := some { b with countedActive := true, queueFactor := factor } }

theorem newJob_effect (e : Engine H) (job : Job) (s : JobStorage) :
    ∃ rs, NewJobEffect e.host job (e.startBinding job s).2.2.ledger (e.startBinding job s).1
      (e.startBinding job s).2.1 s (e.newJob job s).outcome rs (e.newJob job s).engine.host
      (e.newJob job s).engine.ledger (e.newJob job s).storage := by
  have host := e.startBinding_host job s
  unfold newJob
  generalize e.startBinding job s = start at host
  obtain ⟨b, byDefault, e'⟩ := start
  simp only at host
  rw [← host]
  simp only
  split
  · rename_i hnone
    exact ⟨_, .rejected fun a ha => by simp [hnone] at ha⟩
  · rename_i a ha
    have away : TurnsAway e'.ledger job b a →
        ∀ a', e'.ledger.objects[b.account]? = some a' → TurnsAway e'.ledger job b a' := by
      intro h a' ha'
      obtain rfl : a = a' := Option.some.inj (ha.symm.trans ha')
      exact h
    unfold bindTo
    split
    · rename_i hp
      exact ⟨_, .placed ha hp⟩
    · rename_i hp
      have hp : a.isPlaceholder = false := by simpa using hp
      split
      · rename_i hd
        exact ⟨_, .detached ha hp hd⟩
      · split
        · rename_i hqueue
          exact ⟨_, .rejected (away ⟨hp, .inl hqueue⟩)⟩
        · split
          · rename_i hfull
            exact ⟨_, .rejected (away ⟨hp, .inr (by simpa using hfull)⟩)⟩
          · rename_i factor hq hroom
            have room : b.countedActive = false → a.atActiveLimit = false := by
              intro hb
              simpa [hb] using hroom
            unfold enroll
            simp only
            split
            · rename_i hpatch
              obtain ⟨hserve, hledger⟩ := serve_of_patch hpatch
              simp only [fault, note_ledger, note_host, hledger]
              exact ⟨_, .enrolled ha hp room hq rfl hserve⟩
            · rename_i hpatch
              obtain ⟨hserve, hledger⟩ := serve_of_patch hpatch
              simp only [done, note_ledger, note_host, hledger]
              exact ⟨_, .enrolled ha hp room hq rfl hserve⟩

/-- The scheduler accepts just these requests when a job is announced. -/
theorem NewJobEffect.accepts {h h' : H} {job : Job} {l l' : Ledger} {b : JobBinding}
    {byDefault : Bool} {s s' : JobStorage} {outcome : Except HandlerError Unit}
    {rs : List HostRequest} (effect : NewJobEffect h job l b byDefault s outcome rs h' l' s') :
    Scheduler.Accepts h rs h' := by
  cases effect with
  | rejected | placed | detached => exact .done
  | @enrolled _ _ ps _ _ _ _ _ _ _ hpatch =>
    have accepts := Scheduler.accepts_serve h (patchRequests job ps)
    rwa [hpatch] at accepts

/-! ### Throttling -/

/-- What the throttle does with a job, from the decision of a gate. -/
theorem throttle_cases (e : Engine H) (job : Job) (a : Account) :
    (∃ r a', a.enterGate job.id = (.proceed r, a') ∧
      e.throttle job a = (.ok (.proceed r), a', e.host)) ∨
    (∃ a' host, a.enterGate job.id = (.hold, a') ∧
      Scheduler.request e.host (.addDependency job.id heldLabel) = (none, host) ∧
      e.throttle job a = (.ok .hold, a', host)) ∨
    ∃ a' err host, a.enterGate job.id = (.hold, a') ∧
      Scheduler.request e.host (.addDependency job.id heldLabel) = (some err, host) ∧
      e.throttle job a = (.error err, a'.unhold job.id, host) := by
  unfold throttle
  rcases a.enterGate job.id with ⟨r | _, a'⟩
  · exact .inl ⟨r, a', rfl, rfl⟩
  · rcases Scheduler.request e.host (.addDependency job.id heldLabel) with ⟨_ | err, host⟩
    · exact .inr (.inl ⟨a', host, rfl, rfl, rfl⟩)
    · exact .inr (.inr ⟨a', err, host, rfl, rfl, rfl⟩)

/-- What the step before waiting for resources does. -/
inductive DependEffect (e : Engine H) (job : Job) (s : JobStorage) :
    Except HandlerError DependOutcome → List HostRequest → H → Ledger → JobStorage → Prop where
  /-- The job is bound to no account. -/
  | unbound (hb : e.boundAccount s = none) :
    DependEffect e job s (.error (.fault .missingBinding)) [] e.host e.ledger s
  /-- The account is a placeholder. -/
  | waved {b : JobBinding} {a : Account} (hb : e.boundAccount s = some (b, a))
    (hp : a.isPlaceholder = true) :
    DependEffect e job s (.ok .proceed) [] e.host e.ledger
      { s with binding := some { b with runReserved := false } }
  /-- The gate lets the job through. -/
  | admitted {b : JobBinding} {a a' : Account} {r : Bool} (hb : e.boundAccount s = some (b, a))
    (hp : a.isPlaceholder = false) (hg : a.enterGate job.id = (.proceed r, a')) :
    DependEffect e job s (.ok .proceed) [] e.host (e.ledger.put a')
      { s with binding := some { b with runReserved := r } }
  /-- The gate holds the job. -/
  | held {b : JobBinding} {a a' : Account} {host : H} (hb : e.boundAccount s = some (b, a))
    (hp : a.isPlaceholder = false) (hg : a.enterGate job.id = (.hold, a'))
    (hreq : Scheduler.request e.host (.addDependency job.id heldLabel) = (none, host)) :
    DependEffect e job s (.ok .held) [.addDependency job.id heldLabel] host (e.ledger.put a')
      { s with dependencies := s.dependencies ++ [heldLabel] }
  /-- The gate holds the job, and the scheduler refuses to. -/
  | refused {b : JobBinding} {a a' : Account} {err : HostError} {host : H}
    (hb : e.boundAccount s = some (b, a)) (hp : a.isPlaceholder = false)
    (hg : a.enterGate job.id = (.hold, a'))
    (hreq : Scheduler.request e.host (.addDependency job.id heldLabel) = (some err, host)) :
    DependEffect e job s (.error (.fault (.dependencyAdd err))) [] host
      (e.ledger.put (a'.unhold job.id)) s

theorem depend_effect (e : Engine H) (job : Job) (s : JobStorage) :
    ∃ rs, DependEffect e job s (e.depend job s).outcome rs (e.depend job s).engine.host
      (e.depend job s).engine.ledger (e.depend job s).storage := by
  unfold depend
  split
  · rename_i hb
    exact ⟨_, .unbound hb⟩
  · rename_i b a hb
    split
    · rename_i hp
      exact ⟨_, .waved hb hp⟩
    · rename_i hp
      have hp : a.isPlaceholder = false := by simpa using hp
      obtain ⟨r, a', hg, ht⟩ | ⟨a', host, hg, hreq, ht⟩ | ⟨a', err, host, hg, hreq, ht⟩ :=
        e.throttle_cases job a
      · rw [ht]
        exact ⟨_, .admitted hb hp hg⟩
      · rw [ht]
        exact ⟨_, .held hb hp hg hreq⟩
      · rw [ht]
        exact ⟨_, .refused hb hp hg hreq⟩

theorem DependEffect.accepts {e : Engine H} {job : Job} {s s' : JobStorage}
    {outcome : Except HandlerError DependOutcome} {rs : List HostRequest} {h' : H} {l' : Ledger}
    (effect : DependEffect e job s outcome rs h' l' s') : Scheduler.Accepts e.host rs h' := by
  cases effect with
  | unbound | waved | admitted => exact .done
  | held _ _ _ hreq => exact .next hreq .done
  | refused _ _ _ hreq => exact .refused hreq

omit [Scheduler H] in
theorem account_of_boundAccount {e : Engine H} {s : JobStorage} {b b' : JobBinding} {a : Account}
    (hb : e.boundAccount s = some (b, a)) (hk : b'.account = b.account) :
    (some b').map JobBinding.account = s.binding.map JobBinding.account := by
  simp [(boundAccount_eq_some.mp hb).1, hk]

/-- The job stays with its account. -/
theorem DependEffect.account_eq {e : Engine H} {job : Job} {s s' : JobStorage}
    {outcome : Except HandlerError DependOutcome} {rs : List HostRequest} {h' : H} {l' : Ledger}
    (effect : DependEffect e job s outcome rs h' l' s') :
    s'.binding.map JobBinding.account = s.binding.map JobBinding.account := by
  cases effect with
  | unbound | held | refused => rfl
  | waved hb | admitted hb => exact account_of_boundAccount hb rfl

/-- What it does that a job runs. -/
inductive RunEffect (e : Engine H) (job : Job) (s : JobStorage) : Ledger → JobStorage → Prop where
  /-- The job is bound to no account. -/
  | unbound (hb : e.boundAccount s = none) : RunEffect e job s e.ledger s
  /-- The account counts the job as running. -/
  | started {b : JobBinding} {a : Account} (hb : e.boundAccount s = some (b, a)) :
    RunEffect e job s (e.ledger.put (a.start job.id b))
      { s.removeDependency heldLabel with
        binding := some { b with runReserved := false, countedRunning := true } }

omit [Scheduler H] in
theorem run_effect (e : Engine H) (job : Job) (s : JobStorage) :
    RunEffect e job s (e.run job s).engine.ledger (e.run job s).storage := by
  unfold run
  split
  · rename_i hb
    exact .unbound hb
  · rename_i b a hb
    exact .started hb

omit [Scheduler H] in
theorem RunEffect.account_eq {e : Engine H} {job : Job} {s s' : JobStorage} {l' : Ledger}
    (effect : RunEffect e job s l' s') :
    s'.binding.map JobBinding.account = s.binding.map JobBinding.account := by
  cases effect with
  | unbound => rfl
  | started hb => exact account_of_boundAccount hb rfl

omit [Scheduler H] in
/-- A job that runs makes no request. -/
theorem run_host (e : Engine H) (job : Job) (s : JobStorage) :
    (e.run job s).engine.host = e.host := by
  unfold run
  split
  · rfl
  · rfl

/-- What it does that a job leaves. -/
inductive InactiveEffect (e : Engine H) (job : Job) (s : JobStorage) :
    Except HandlerError Unit → List HostRequest → H → Ledger → JobStorage → Prop where
  /-- The job is bound to no account. -/
  | unbound (hb : e.boundAccount s = none) :
    InactiveEffect e job s (.error (.fault .missingBinding)) [] e.host e.ledger s
  /-- The job gives no slot back. -/
  | left {b : JobBinding} {a a' : Account} (hb : e.boundAccount s = some (b, a))
    (hl : a.leave job.id b job.allocObserved = (false, a')) :
    InactiveEffect e job s (.ok ()) [] e.host (e.ledger.put a') { s with binding := none }
  /-- The job gives a slot back, and no job is released. -/
  | freed {b : JobBinding} {a a₁ a' : Account} (hb : e.boundAccount s = some (b, a))
    (hl : a.leave job.id b job.allocObserved = (true, a₁)) (hr : a₁.releaseNext = (none, a')) :
    InactiveEffect e job s (.ok ()) [] e.host (e.ledger.put a') { s with binding := none }
  /-- The job gives a slot back, and the next job is released. -/
  | released {b : JobBinding} {a a₁ a' : Account} {next : JobId} {host : H}
    (hb : e.boundAccount s = some (b, a))
    (hl : a.leave job.id b job.allocObserved = (true, a₁))
    (hr : a₁.releaseNext = (some next, a'))
    (hreq : Scheduler.request e.host (.removeDependency next heldLabel) = (none, host)) :
    InactiveEffect e job s (.ok ()) [.removeDependency next heldLabel] host (e.ledger.put a')
      { s with binding := none }
  /-- The job gives a slot back, and the scheduler refuses to release the next job. -/
  | kept {b : JobBinding} {a a₁ a' : Account} {next : JobId} {err : HostError} {host : H}
    (hb : e.boundAccount s = some (b, a))
    (hl : a.leave job.id b job.allocObserved = (true, a₁))
    (hr : a₁.releaseNext = (some next, a'))
    (hreq : Scheduler.request e.host (.removeDependency next heldLabel) = (some err, host)) :
    InactiveEffect e job s (.error (.fault (.dependencyRemove err))) [] host
      (e.ledger.put (a'.unrelease next)) { s with binding := none }

theorem inactive_effect (e : Engine H) (job : Job) (s : JobStorage) :
    ∃ rs, InactiveEffect e job s (e.inactive job s).outcome rs (e.inactive job s).engine.host
      (e.inactive job s).engine.ledger (e.inactive job s).storage := by
  unfold inactive
  split
  · rename_i hb
    exact ⟨_, .unbound hb⟩
  · rename_i b a hb
    simp only
    rcases hl : a.leave job.id b job.allocObserved with ⟨freed | freed, a₁⟩
    · exact ⟨_, .left hb hl⟩
    · simp only [release]
      rcases hr : a₁.releaseNext with ⟨_ | next, a'⟩
      · exact ⟨_, .freed hb hl hr⟩
      · simp only
        rcases hreq : Scheduler.request e.host (.removeDependency next heldLabel) with
          ⟨_ | err, host⟩
        · exact ⟨_, .released hb hl hr hreq⟩
        · exact ⟨_, .kept hb hl hr hreq⟩

theorem InactiveEffect.accepts {e : Engine H} {job : Job} {s s' : JobStorage}
    {outcome : Except HandlerError Unit} {rs : List HostRequest} {h' : H} {l' : Ledger}
    (effect : InactiveEffect e job s outcome rs h' l' s') : Scheduler.Accepts e.host rs h' := by
  cases effect with
  | unbound | left | freed => exact .done
  | released _ _ _ hreq => exact .next hreq .done
  | kept _ _ _ hreq => exact .refused hreq

/-! ### Priorities and queues -/

@[simp] theorem rebound_account (b : JobBinding) (a : Account) (factor : Int64)
    (decision : Gate.Decision) : (rebound b a factor decision).account = a.handle := by
  cases decision <;> rfl

@[simp] theorem reboundStorage_binding (s : JobStorage) (b : JobBinding)
    (decision : Gate.Decision) : (reboundStorage s b decision).binding = some b := by
  cases decision <;> rfl

/-- The patches of a job that is moved to a bank. -/
def bankPatches (job : Job) (bank : String) : List JobspecPatch :=
  if job.bank.isNone then [.bank bank] else []

/-- Why a job stays with a placeholder, and what it is answered. -/
inductive Stays (e : Engine H) (job : Job) : Except HandlerError PriorityOutcome → Prop where
  /-- A placeholder is found for the job. -/
  | waiting {a : Account} (hl : e.ledger.lookup job.userid job.bank = .placeholder a) :
    Stays e job (.ok .unavailable)
  /-- Nothing is found, and the feed told no account yet. -/
  | early (hl : e.ledger.lookup job.userid job.bank = .notFound)
    (only : e.ledger.onlyPlaceholders = true) : Stays e job (.ok .unavailable)
  /-- Nothing is found, though the feed told accounts. -/
  | unresolvable (hl : e.ledger.lookup job.userid job.bank = .notFound)
    (told : e.ledger.onlyPlaceholders = false) :
    Stays e job (.error (.fault (.unresolvable job.userid)))
  /-- A real account is found, for which the queue is invalid. -/
  | invalidQueue {real : Account} (hf : e.ledger.lookup job.userid job.bank = .found real)
    (hq : e.queueFactor? real job.queue = none) :
    Stays e job (.error (.fault (.invalidQueue (job.queue.getD ""))))

omit [Scheduler H] in
theorem Stays.ne_value {e : Engine H} {job : Job} {outcome : Except HandlerError PriorityOutcome}
    (h : Stays e job outcome) (value : Int) : outcome ≠ .ok (.value value) := by
  cases h with
  | waiting | early | unresolvable | invalidQueue => simp

/-- What it does that a job asks for its priority. -/
inductive PriorityEffect (e : Engine H) (job : Job) (s : JobStorage) :
    Except HandlerError PriorityOutcome → List HostRequest → H → Ledger → JobStorage → Prop where
  /-- The job is bound to no account. -/
  | unbound (hb : e.boundAccount s = none) :
    PriorityEffect e job s (.error (.fault .missingBinding)) [] e.host e.ledger s
  /-- The account is real. -/
  | prioritized {b : JobBinding} {a : Account} (hb : e.boundAccount s = some (b, a))
    (hp : a.isPlaceholder = false) :
    PriorityEffect e job s
      (.ok (.value (Priority.compute a.terms.fairshare b.queueFactor job.urgency))) [] e.host
      e.ledger s
  /-- The account is a placeholder, and the job stays with it. -/
  | stayed {b : JobBinding} {a : Account} {outcome : Except HandlerError PriorityOutcome}
    (hb : e.boundAccount s = some (b, a)) (hp : a.isPlaceholder = true)
    (why : Stays e job outcome) :
    PriorityEffect e job s outcome [] e.host e.ledger s
  /-- There is a real account now, its gate holds the job, and the scheduler refuses to. -/
  | refused {b : JobBinding} {a real a' : Account} {err : HostError} {host : H}
    (hb : e.boundAccount s = some (b, a)) (hp : a.isPlaceholder = true)
    (hf : e.ledger.lookup job.userid job.bank = .found real)
    (hg : real.enterGate job.id = (.hold, a'))
    (hreq : Scheduler.request e.host (.addDependency job.id heldLabel) = (some err, host)) :
    PriorityEffect e job s (.error (.fault (.dependencyAdd err))) [] host
      (e.ledger.put (a'.unhold job.id)) s
  /-- The job is moved to its real account. -/
  | rebound {b : JobBinding} {a real a' : Account} {decision : Gate.Decision} {factor : Int64}
    {err : Option HostError} {host₁ host : H} {ps : List JobspecPatch}
    (hb : e.boundAccount s = some (b, a)) (hp : a.isPlaceholder = true)
    (hf : e.ledger.lookup job.userid job.bank = .found real)
    (hg : real.enterGate job.id = (decision, a'))
    (hq : e.queueFactor? real job.queue = some factor)
    (hhold : Scheduler.serve e.host (holdRequests job decision) = (none, host₁))
    (hps : ps = bankPatches job a'.key.bank)
    (hpatch : Scheduler.serve host₁ (patchRequests job ps) = (err, host)) :
    PriorityEffect e job s
      (patchAnswer (.value (Priority.compute a'.terms.fairshare factor job.urgency)) err)
      (holdRequests job decision ++ Scheduler.accepted host₁ (patchRequests job ps)) host
      (e.ledger.put (a'.countActive.withQueueFactor factor))
      (reboundStorage s (Engine.rebound b (a'.countActive.withQueueFactor factor) factor decision)
        decision)

theorem rebind_effect {e : Engine H} {job : Job} {s : JobStorage} {b : JobBinding}
    {a real : Account} (hb : e.boundAccount s = some (b, a)) (hp : a.isPlaceholder = true)
    (hf : e.ledger.lookup job.userid job.bank = .found real) :
    ∃ rs, PriorityEffect e job s (e.rebind job s b real).outcome rs
      (e.rebind job s b real).engine.host (e.rebind job s b real).engine.ledger
      (e.rebind job s b real).storage := by
  unfold rebind
  split
  · rename_i hq
    exact ⟨_, .stayed hb hp (.invalidQueue hf hq)⟩
  · rename_i factor hq
    obtain ⟨r, a', hg, ht⟩ | ⟨a', host, hg, hreq, ht⟩ | ⟨a', err, host, hg, hreq, ht⟩ :=
      e.throttle_cases job real
    · rw [ht]
      simp only
      split
      · rename_i hpatch
        obtain ⟨hserve, hledger⟩ := serve_of_patch hpatch
        simp only [fault, note_ledger, note_host, hledger]
        exact ⟨_, .rebound hb hp hf hg hq rfl rfl hserve⟩
      · rename_i hpatch
        obtain ⟨hserve, hledger⟩ := serve_of_patch hpatch
        simp only [prioritize, done, note_ledger, note_host, hledger]
        exact ⟨_, .rebound hb hp hf hg hq rfl rfl hserve⟩
    · rw [ht]
      have hold : Scheduler.serve e.host (holdRequests job .hold) = (none, host) := by
        simp [holdRequests, Scheduler.serve, hreq]
      simp only
      split
      · rename_i hpatch
        obtain ⟨hserve, hledger⟩ := serve_of_patch hpatch
        simp only [fault, note_ledger, note_host, hledger]
        exact ⟨_, .rebound hb hp hf hg hq hold rfl hserve⟩
      · rename_i hpatch
        obtain ⟨hserve, hledger⟩ := serve_of_patch hpatch
        simp only [prioritize, done, note_ledger, note_host, hledger]
        exact ⟨_, .rebound hb hp hf hg hq hold rfl hserve⟩
    · rw [ht]
      exact ⟨_, .refused hb hp hf hg hreq⟩

theorem priority_effect (e : Engine H) (job : Job) (s : JobStorage) :
    ∃ rs, PriorityEffect e job s (e.priority job s).outcome rs (e.priority job s).engine.host
      (e.priority job s).engine.ledger (e.priority job s).storage := by
  unfold priority
  split
  · rename_i hb
    exact ⟨_, .unbound hb⟩
  · rename_i b a hb
    split
    · rename_i hp
      split
      · rename_i real hf
        exact rebind_effect hb hp hf
      · rename_i hl
        exact ⟨_, .stayed hb hp (.waiting hl)⟩
      · rename_i hl
        split
        · rename_i only
          exact ⟨_, .stayed hb hp (.early hl only)⟩
        · rename_i told
          exact ⟨_, .stayed hb hp (.unresolvable hl (by simpa using told))⟩
    · rename_i hp
      exact ⟨_, .prioritized hb (by simpa using hp)⟩

theorem PriorityEffect.accepts {e : Engine H} {job : Job} {s s' : JobStorage}
    {outcome : Except HandlerError PriorityOutcome} {rs : List HostRequest} {h' : H} {l' : Ledger}
    (effect : PriorityEffect e job s outcome rs h' l' s') : Scheduler.Accepts e.host rs h' := by
  cases effect with
  | unbound | prioritized | stayed => exact .done
  | refused _ _ _ _ hreq => exact .refused hreq
  | @rebound _ _ _ _ _ _ _ host₁ _ ps _ _ _ _ _ hhold _ hpatch =>
    have accepts := Scheduler.accepts_serve host₁ (patchRequests job ps)
    rw [hpatch] at accepts
    exact .append hhold accepts

/-- A job of a real account stays as it is. -/
theorem PriorityEffect.storage_of_real {e : Engine H} {job : Job} {s s' : JobStorage}
    {outcome : Except HandlerError PriorityOutcome} {rs : List HostRequest} {h' : H} {l' : Ledger}
    {b : JobBinding} {a : Account} (effect : PriorityEffect e job s outcome rs h' l' s')
    (hb : e.boundAccount s = some (b, a)) (real : a.isPlaceholder = false) : s' = s := by
  cases effect with
  | unbound | prioritized | stayed | refused => rfl
  | rebound hb' hp =>
    cases hb.symm.trans hb'
    simp [real] at hp

omit [Scheduler H] in
/-- A proposal of another queue changes nothing. -/
theorem updateQueue_effect (e : Engine H) (job : Job) (s : JobStorage) (queue : Option String) :
    (e.updateQueue job s queue).engine.ledger = e.ledger ∧
      (e.updateQueue job s queue).engine.host = e.host ∧
      (e.updateQueue job s queue).storage = s := by
  unfold updateQueue
  split
  · exact ⟨rfl, rfl, rfl⟩
  · split
    · exact ⟨rfl, rfl, rfl⟩
    · exact ⟨rfl, rfl, rfl⟩

/-- What a changed queue does. -/
inductive QueueUpdatedEffect (e : Engine H) (s : JobStorage) : Ledger → JobStorage → Prop where
  /-- The job is bound to no account or to a placeholder, or its queue is invalid. -/
  | ignored : QueueUpdatedEffect e s e.ledger s
  /-- The queue has another factor. -/
  | settled {b : JobBinding} {a : Account} {factor : Int64} (hb : e.boundAccount s = some (b, a))
    (hp : a.isPlaceholder = false) :
    QueueUpdatedEffect e s (e.ledger.put (a.withQueueFactor factor))
      { s with binding := some { b with queueFactor := factor } }

omit [Scheduler H] in
theorem queueUpdated_effect (e : Engine H) (job : Job) (s : JobStorage) :
    QueueUpdatedEffect e s (e.queueUpdated job s).engine.ledger (e.queueUpdated job s).storage := by
  unfold queueUpdated
  split
  · exact .ignored
  · rename_i b a hb
    split
    · exact .ignored
    · rename_i hp
      split
      · exact .ignored
      · exact .settled hb (by simpa using hp)

omit [Scheduler H] in
/-- How a changed queue is taken over: by a real account that permits it, or not at all. -/
theorem queueUpdated_cases (e : Engine H) (job : Job) (s : JobStorage) :
    (∃ b a factor, e.boundAccount s = some (b, a) ∧ a.isPlaceholder = false ∧
      e.queueFactor? a job.queue = some factor ∧
      e.queueUpdated job s = (e.put (a.withQueueFactor factor)).done
        { s with binding := some { b with queueFactor := factor } } ()) ∨
    (∃ b a, e.boundAccount s = some (b, a) ∧ a.isPlaceholder = true ∧
      e.queueUpdated job s = e.done s ()) ∨
    ∃ f, (f = .missingBinding ∨ f = .invalidQueue (job.queue.getD "")) ∧
      e.queueUpdated job s = e.fault job s f := by
  unfold queueUpdated
  split
  · exact .inr (.inr ⟨_, .inl rfl, rfl⟩)
  · rename_i b a hb
    split
    · rename_i hp
      exact .inr (.inl ⟨b, a, hb, hp, rfl⟩)
    · rename_i hp
      split
      · exact .inr (.inr ⟨_, .inr rfl, rfl⟩)
      · rename_i factor hq
        exact .inl ⟨b, a, factor, hb, by simpa using hp, hq, rfl⟩

omit [Scheduler H] in
theorem QueueUpdatedEffect.account_eq {e : Engine H} {s s' : JobStorage} {l' : Ledger}
    (effect : QueueUpdatedEffect e s l' s') :
    s'.binding.map JobBinding.account = s.binding.map JobBinding.account := by
  cases effect with
  | ignored => rfl
  | settled hb => exact account_of_boundAccount hb rfl

omit [Scheduler H] in
/-- A changed queue makes no request. -/
theorem queueUpdated_host (e : Engine H) (job : Job) (s : JobStorage) :
    (e.queueUpdated job s).engine.host = e.host := by
  unfold queueUpdated
  split
  · rfl
  · split
    · rfl
    · split
      · rfl
      · rfl

end JobAdmission.Engine

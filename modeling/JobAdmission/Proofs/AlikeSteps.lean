import JobAdmission.Proofs.FailedCalls
import JobAdmission.Proofs.SameBut

/-!
# Steps that go alike

This module proves that a step for another job goes alike on two engines whose ledgers are the same
but for a job `x` (`Engine.SameBut.stepOf`): it answers the same, keeps the same for its job, and
leaves ledgers that are again the same but for `x`. The scheduler must refuse nothing in the step of
the first engine (`HandlerError.refused`); then it refuses nothing in that of the second one. And
`x` must not be released.

A step for `x` itself, which the first engine takes alone, leaves the engines the same but for `x`
as well, as long as `x` gets no slot in it (`Engine.SameBut.depend_own` and the like).
-/

namespace JobAdmission

/-! ### Refusals -/

/-- The scheduler refused something. -/
def Fault.ofHost : Fault → Bool
  | .jobspecUpdate _ | .dependencyAdd _ | .dependencyRemove _ => true
  | .unpack _ | .missingBinding | .unresolvable _ | .invalidQueue _ => false

/-- The scheduler refused something, for which the step failed. -/
def HandlerError.refused {α : Type} : Except HandlerError α → Bool
  | .error (.fault f) => f.ofHost
  | .error (.rejected _) | .ok _ => false

theorem HandlerError.refused_map {α β : Type} (o : Except HandlerError α) (f : α → β) :
    refused (o.map f) = refused o := by
  rcases o with err | _
  · cases err <;> rfl
  · rfl

/-! ### Engines and steps -/

/-- The engines are configured alike, their ledgers are the same but for the job, and their
schedulers compare. -/
structure Engine.SameBut {H : Type} (like : H → H → Prop) (x : JobId) (extra : Handle → Counter)
    (e e' : Engine H) : Prop where
  config : e'.config = e.config
  ledger : e.ledger.SameBut x extra e'.ledger
  host : like e.host e'.host

/-- The steps answer alike and keep the same for their job, and leave engines that are the same
but for the job `x`. -/
structure Step.SameBut {H α : Type} (like : H → H → Prop) (x : JobId) (extra : Handle → Counter)
    (step step' : Step α H) : Prop where
  outcome : step'.outcome = step.outcome
  storage : step'.storage = step.storage
  engine : step.engine.SameBut like x extra step'.engine

theorem Step.SameBut.map {H α β : Type} {like : H → H → Prop} {x : JobId} {extra : Handle → Counter}
    {step step' : Step α H} (h : step.SameBut like x extra step') (f : α → β) :
    (step.map f).SameBut like x extra (step'.map f) where
  outcome := congrArg (Except.map f) h.outcome
  storage := h.storage
  engine := h.engine

/-- A job is not let through the throttle if the scheduler refuses to hold it. -/
theorem Engine.accepts_of_depend {H : Type} [Scheduler H] {e : Engine H} {job : Job}
    {s : JobStorage} {b : JobBinding} {a : Account} (hb : e.boundAccount s = some (b, a))
    (real : a.isPlaceholder = false)
    (accepted : HandlerError.refused (e.depend job s).outcome = false) (err : HostError) :
    (e.throttle job a).1 ≠ .error err := by
  intro herr
  unfold depend at accepted
  rw [hb] at accepted
  simp only [real, Bool.false_eq_true, if_false] at accepted
  rcases ht : e.throttle job a with ⟨err' | decision, account, host⟩
  · rw [ht] at accepted
    cases accepted
  · rw [ht] at herr
    cases herr

/-- A job is not moved if the scheduler refuses to hold it. -/
theorem Engine.accepts_of_rebind {H : Type} [Scheduler H] {e : Engine H} {job : Job}
    {s : JobStorage} {b : JobBinding} {a : Account} {factor : Int64}
    (hq : e.queueFactor? a job.queue = some factor)
    (accepted : HandlerError.refused (e.rebind job s b a).outcome = false) (err : HostError) :
    (e.throttle job a).1 ≠ .error err := by
  intro herr
  unfold rebind at accepted
  rw [hq] at accepted
  rcases ht : e.throttle job a with ⟨err' | decision, account, host⟩
  · rw [ht] at accepted
    cases accepted
  · rw [ht] at herr
    cases herr

namespace Engine.SameBut

variable {H : Type} {like : H → H → Prop} {x : JobId} {extra : Handle → Counter} {e e' : Engine H}
  {job : Job} {s : JobStorage} {a a' : Account} {b : JobBinding}

/-! #### Ends of steps -/

theorem note (h : e.SameBut like x extra e') (bank bank' : Option String) (action : AuditAction)
    (detail detail' : Option String) :
    (e.note job bank action detail).SameBut like x extra (e'.note job bank' action detail') :=
  ⟨h.config, h.ledger, h.host⟩

theorem put (h : e.SameBut like x extra e') (same : a.SameBut x (extra a.handle) a') :
    (e.put a).SameBut like x extra (e'.put a') :=
  ⟨h.config, h.ledger.put same, h.host⟩

theorem withHost (h : e.SameBut like x extra e') {host host' : H} (hlike : like host host') :
    Engine.SameBut like x extra { e with host } { e' with host := host' } :=
  ⟨h.config, h.ledger, hlike⟩

theorem done {α : Type} (h : e.SameBut like x extra e') (s : JobStorage) (answer : α) :
    (e.done s answer).SameBut like x extra (e'.done s answer) := ⟨rfl, rfl, h⟩

theorem fault {α : Type} (h : e.SameBut like x extra e') (s : JobStorage) (f : Fault) :
    (e.fault job s f : Step α H).SameBut like x extra (e'.fault job s f) :=
  ⟨rfl, rfl, h.note _ _ _ _ _⟩

theorem reject {α : Type} (h : e.SameBut like x extra e') (s : JobStorage)
    (bank bank' : Option String) (r : Rejection) :
    (e.reject job s bank r : Step α H).SameBut like x extra (e'.reject job s bank' r) :=
  ⟨rfl, rfl, h.note _ _ _ _ _⟩

theorem ensurePlaceholder (h : e.SameBut like x extra e') (job : Job) :
    (e.ensurePlaceholder job).SameBut like x extra (e'.ensurePlaceholder job) := by
  refine ⟨h.config, ?_, h.host⟩
  show (e.ledger.ensurePlaceholder job.userid e.config.placeholderFairshare).SameBut x extra
    (e'.ledger.ensurePlaceholder job.userid e'.config.placeholderFairshare)
  rw [h.config]
  exact h.ledger.ensurePlaceholder _ _

/-! #### Parts of steps -/

/-- The job is bound to the same account, if at all. -/
theorem boundAccount (h : e.SameBut like x extra e') (s : JobStorage) :
    (e.boundAccount s = none ∧ e'.boundAccount s = none) ∨
      ∃ b a a', e.boundAccount s = some (b, a) ∧ e'.boundAccount s = some (b, a') ∧
        a.SameBut x (extra a.handle) a' := by
  cases hs : s.binding with
  | none => exact .inl ⟨by simp [Engine.boundAccount, hs], by simp [Engine.boundAccount, hs]⟩
  | some b =>
    cases ha : e.ledger.objects[b.account]? with
    | none =>
      have ha' := (h.ledger.absent _ ha).1
      exact .inl ⟨by simp [Engine.boundAccount, hs, ha], by simp [Engine.boundAccount, hs, ha']⟩
    | some a =>
      obtain ⟨a', ha', same⟩ := h.ledger.there _ a ha
      rw [← e.ledger.own _ a ha] at same
      exact .inr ⟨b, a, a', boundAccount_eq_some.mpr ⟨hs, ha⟩,
        boundAccount_eq_some.mpr ⟨hs, ha'⟩, same⟩

theorem queueFactor? (h : e.SameBut like x extra e') {n : Counter} (same : a.SameBut x n a')
    (queue : Option String) : e'.queueFactor? a' queue = e.queueFactor? a queue := by
  rw [Engine.queueFactor?, Engine.queueFactor?, h.ledger.queues, same.terms]

theorem objection (h : e.SameBut like x extra e') {n : Counter} (same : a.SameBut x n a') :
    e'.objection job a' = e.objection job a := by
  have project : e'.forbiddenProject job a' = e.forbiddenProject job a := by
    simp only [Engine.forbiddenProject, Account.permitsProject, h.ledger.projects, same.terms]
  simp only [Engine.objection, same.terms, h.queueFactor? same, h.config, project,
    same.atActiveLimit]

theorem prioritize (h : e.SameBut like x extra e') {n : Counter} (same : a.SameBut x n a')
    (s : JobStorage) (b : JobBinding) :
    (e.prioritize job s a b).SameBut like x extra (e'.prioritize job s a' b) := by
  rw [Engine.prioritize, Engine.prioritize, same.terms]
  exact (h.note _ _ _ _ _).done s _

/-- A job starts from the same binding. -/
theorem startBinding (h : e.SameBut like x extra e') (job : Job) (s : JobStorage) :
    ∃ b byDefault e₁ e₁', e.startBinding job s = (b, byDefault, e₁) ∧
      e'.startBinding job s = (b, byDefault, e₁') ∧ e₁.SameBut like x extra e₁' := by
  unfold Engine.startBinding
  cases s.binding with
  | some b => exact ⟨b, false, e, e', rfl, rfl, h⟩
  | none =>
    obtain ⟨a, a', hl, hl', same⟩ | ⟨a, a', hl, hl', same⟩ | ⟨hl, hl'⟩ :=
      h.ledger.lookup job.userid job.bank
    · rw [hl, hl']
      simp only [same.handle]
      exact ⟨_, _, e, e', rfl, rfl, h⟩
    · rw [hl, hl']
      simp only [same.handle]
      exact ⟨_, _, e, e', rfl, rfl, h⟩
    · rw [hl, hl']
      simp only [h.ledger.placeholderHandle]
      exact ⟨_, _, _, _, rfl, rfl, h.ensurePlaceholder job⟩

variable [Scheduler H]

/-- Patches that the first scheduler accepts, the second one accepts. -/
theorem patch (h : e.SameBut like x extra e') (apart : Scheduler.Apart x like) (hj : job.id ≠ x)
    {ps : List JobspecPatch} {e₁ : Engine H} (hp : e.patch job ps = (none, e₁)) :
    ∃ e₁', e'.patch job ps = (none, e₁') ∧ e₁.SameBut like x extra e₁' := by
  rw [patch_eq] at hp
  obtain ⟨hserve, rfl⟩ := Prod.mk.inj hp
  have about : ∀ r ∈ patchRequests job ps, r.job? ≠ some x := by
    intro r hr
    obtain ⟨p, -, rfl⟩ := List.mem_map.mp hr
    exact fun hx => hj (Option.some.inj hx)
  obtain ⟨host', hserve', hlike⟩ := apart.serve h.host about (Prod.ext hserve rfl)
  refine ⟨{ e' with host := host' }, ?_, h.withHost hlike⟩
  rw [patch_eq, hserve']

/-- A step that ends with patches goes on alike, if the scheduler accepts them. -/
theorem patched {α : Type} (h : e.SameBut like x extra e') (apart : Scheduler.Apart x like)
    (hj : job.id ≠ x) {s : JobStorage} (ps : List JobspecPatch) {ok ok' : Engine H → Step α H}
    (accepted : HandlerError.refused (match e.patch job ps with
      | (some err, e) => e.fault job s (.jobspecUpdate err)
      | (none, e) => ok e).outcome = false)
    (alike : ∀ e₁ e₁' : Engine H, e₁.SameBut like x extra e₁' →
      (ok e₁).SameBut like x extra (ok' e₁')) :
    Step.SameBut like x extra
      (match e.patch job ps with
      | (some err, e) => e.fault job s (.jobspecUpdate err)
      | (none, e) => ok e)
      (match e'.patch job ps with
      | (some err, e) => e.fault job s (.jobspecUpdate err)
      | (none, e) => ok' e) := by
  rcases hp : e.patch job ps with ⟨_ | err, e₁⟩
  · obtain ⟨e₁', hp', h₁⟩ := h.patch apart hj hp
    rw [hp']
    exact alike e₁ e₁' h₁
  · rw [hp] at accepted
    cases accepted

/-- The gate of an account decides on another job alike, and the scheduler holds it if need be. -/
theorem throttle (h : e.SameBut like x extra e') (apart : Scheduler.Apart x like)
    (hj : job.id ≠ x) (same : a.SameBut x (extra a.handle) a')
    (accepts : ∀ err, (e.throttle job a).1 ≠ .error err) :
    ∃ decision a₁ a₁' host host', e.throttle job a = (.ok decision, a₁, host) ∧
      e'.throttle job a' = (.ok decision, a₁', host') ∧ like host host' ∧
        a₁.SameBut x (extra a₁.handle) a₁' := by
  obtain ⟨decides, later⟩ := same.enterGate hj
  obtain ⟨r, a₁, hg, ht⟩ | ⟨a₁, host, hg, hr, ht⟩ | ⟨a₁, err, host, -, -, ht⟩ :=
    e.throttle_cases job a
  · obtain ⟨gate, rfl⟩ := Account.eq_withGate_of_enterGate hg
    rw [hg] at decides later
    refine ⟨.proceed r, _, (a'.enterGate job.id).2, e.host, e'.host, ht, ?_, h.host, later⟩
    rw [Engine.throttle, ← Prod.eta (a'.enterGate job.id), decides]
  · obtain ⟨gate, rfl⟩ := Account.eq_withGate_of_enterGate hg
    rw [hg] at decides later
    have about : (HostRequest.addDependency job.id heldLabel).job? ≠ some x :=
      fun hx => hj (Option.some.inj hx)
    obtain ⟨host', hr', hlike⟩ := apart.others h.host about hr
    refine ⟨.hold, _, (a'.enterGate job.id).2, host, host', ht, ?_, hlike, later⟩
    rw [Engine.throttle, ← Prod.eta (a'.enterGate job.id), decides]
    simp only [hr']
  · exact absurd (congrArg Prod.fst ht) (accepts err)

/-! #### Steps -/

omit [Scheduler H] in
theorem validate (h : e.SameBut like x extra e') :
    (e.validate job s).SameBut like x extra (e'.validate job s) := by
  unfold Engine.validate
  obtain ⟨a, a', hl, hl', same⟩ | ⟨a, a', hl, hl', -⟩ | ⟨hl, hl'⟩ :=
    h.ledger.lookup job.userid job.bank
  · rw [hl, hl']
    simp only [h.objection same]
    cases e.objection job a with
    | some r => exact h.reject s _ _ r
    | none => exact h.done s ()
  · rw [hl, hl']
    exact h.done s ()
  · rw [hl, hl']
    simp only [h.ledger.onlyPlaceholders]
    cases e.ledger.onlyPlaceholders with
    | true => exact (h.ensurePlaceholder job).done s ()
    | false => exact h.reject s _ _ _

theorem enroll (h : e.SameBut like x extra e') (apart : Scheduler.Apart x like) (hj : job.id ≠ x)
    (same : a.SameBut x (extra a.handle) a') {byDefault : Bool} {factor : Int64}
    (accepted : HandlerError.refused (e.enroll job s b a byDefault factor).outcome = false) :
    (e.enroll job s b a byDefault factor).SameBut like x extra
      (e'.enroll job s b a' byDefault factor) := by
  have counted : (if b.countedActive then a else a.countActive).SameBut x
      (extra (if b.countedActive then a else a.countActive).handle)
      (if b.countedActive then a' else a'.countActive) := by
    cases b.countedActive with
    | true => exact same
    | false => exact same.countActive
  have put := h.put (a := (if b.countedActive then a else a.countActive).withQueueFactor factor)
    (counted.withQueueFactor factor factor)
  have given : givenPatches job a' byDefault = givenPatches job a byDefault := by
    rw [givenPatches, givenPatches, same.key, same.terms]
  unfold Engine.enroll at accepted ⊢
  rw [given]
  exact put.patched apart hj _ accepted fun _ _ h₁ => (h₁.note _ _ _ _ _).done _ ()

theorem bindTo (h : e.SameBut like x extra e') (apart : Scheduler.Apart x like) (hj : job.id ≠ x)
    (same : a.SameBut x (extra a.handle) a') {byDefault : Bool}
    (accepted : HandlerError.refused (e.bindTo job s b a byDefault).outcome = false) :
    (e.bindTo job s b a byDefault).SameBut like x extra (e'.bindTo job s b a' byDefault) := by
  unfold Engine.bindTo at accepted ⊢
  rw [same.isPlaceholder, same.terms, h.queueFactor? same, same.atActiveLimit]
  cases hp : a.isPlaceholder with
  | true => exact h.done _ ()
  | false =>
    rw [hp] at accepted
    simp only [Bool.false_eq_true, if_false] at accepted ⊢
    by_cases hd : a.terms.runLimit = .detached
    · rw [if_pos hd, if_pos hd]
      exact h.done _ ()
    · rw [if_neg hd] at accepted ⊢
      rw [if_neg hd]
      cases hq : e.queueFactor? a job.queue with
      | none => exact h.reject s _ _ _
      | some factor =>
        rw [hq] at accepted
        simp only at accepted ⊢
        by_cases hfull : (!b.countedActive && a.atActiveLimit) = true
        · rw [if_pos hfull, if_pos hfull]
          exact h.reject s _ _ _
        · rw [if_neg hfull] at accepted ⊢
          rw [if_neg hfull]
          exact h.enroll apart hj same accepted

theorem newJob (h : e.SameBut like x extra e') (apart : Scheduler.Apart x like) (hj : job.id ≠ x)
    (accepted : HandlerError.refused (e.newJob job s).outcome = false) :
    (e.newJob job s).SameBut like x extra (e'.newJob job s) := by
  obtain ⟨b, byDefault, e₁, e₁', start, start', h₁⟩ := h.startBinding job s
  unfold Engine.newJob at accepted ⊢
  rw [start] at accepted ⊢
  rw [start']
  simp only at accepted ⊢
  cases ha : e₁.ledger.objects[b.account]? with
  | none =>
    rw [(h₁.ledger.absent _ ha).1]
    exact h₁.fault s _
  | some a =>
    obtain ⟨a', ha', same⟩ := h₁.ledger.there _ a ha
    rw [← e₁.ledger.own _ a ha] at same
    rw [ha] at accepted
    rw [ha']
    exact h₁.bindTo apart hj same accepted

theorem depend (h : e.SameBut like x extra e') (apart : Scheduler.Apart x like) (hj : job.id ≠ x)
    (accepted : HandlerError.refused (e.depend job s).outcome = false) :
    (e.depend job s).SameBut like x extra (e'.depend job s) := by
  obtain ⟨hb, hb'⟩ | ⟨b, a, a', hb, hb', same⟩ := h.boundAccount s
  · rw [Engine.depend, Engine.depend, hb, hb']
    exact h.fault s _
  · cases hp : a.isPlaceholder with
    | true =>
      rw [Engine.depend, Engine.depend, hb, hb']
      simp only [same.isPlaceholder, hp, if_true]
      exact h.done _ _
    | false =>
      obtain ⟨decision, a₁, a₁', host, host', ht, ht', hlike, later⟩ :=
        h.throttle apart hj same (accepts_of_depend hb hp accepted)
      rw [Engine.depend, Engine.depend, hb, hb']
      simp only [same.isPlaceholder, hp, Bool.false_eq_true, if_false, ht, ht']
      cases decision with
      | proceed r => exact ((h.put later).withHost hlike).done _ _
      | hold => exact (((h.put later).withHost hlike).note _ _ _ _ _).done _ _

theorem rebind (h : e.SameBut like x extra e') (apart : Scheduler.Apart x like) (hj : job.id ≠ x)
    (same : a.SameBut x (extra a.handle) a')
    (accepted : HandlerError.refused (e.rebind job s b a).outcome = false) :
    (e.rebind job s b a).SameBut like x extra (e'.rebind job s b a') := by
  have queue := h.queueFactor? same job.queue
  cases hq : e.queueFactor? a job.queue with
  | none =>
    rw [Engine.rebind, Engine.rebind, queue, hq]
    exact h.fault s _
  | some factor =>
    rw [hq] at queue
    obtain ⟨decision, a₁, a₁', host, host', ht, ht', hlike, later⟩ :=
      h.throttle apart hj same (accepts_of_rebind hq accepted)
    have counted : (a₁.countActive.withQueueFactor factor).SameBut x
        (extra (a₁.countActive.withQueueFactor factor).handle)
        (a₁'.countActive.withQueueFactor factor) :=
      later.countActive.withQueueFactor factor factor
    unfold Engine.rebind at accepted ⊢
    rw [hq] at accepted ⊢
    rw [queue]
    simp only [ht, ht'] at accepted ⊢
    generalize a₁.countActive.withQueueFactor factor = c at *
    generalize a₁'.countActive.withQueueFactor factor = c' at *
    have binding : Engine.rebound b c' factor decision = Engine.rebound b c factor decision := by
      cases decision <;> simp only [Engine.rebound, counted.handle]
    rw [binding, counted.key]
    have moved : Engine.SameBut like x extra
        (({ e.put c with host } : Engine H).note job (some c.key.bank) .rebind none)
        (({ e'.put c' with host := host' } : Engine H).note job (some c.key.bank) .rebind none) :=
      ((h.put counted).withHost hlike).note _ _ _ _ _
    have noted : Engine.SameBut like x extra
        (if decision = .hold then
          (({ e.put c with host } : Engine H).note job (some c.key.bank) .rebind none).note job
            (some c.key.bank) .hold none
          else ({ e.put c with host } : Engine H).note job (some c.key.bank) .rebind none)
        (if decision = .hold then
          (({ e'.put c' with host := host' } : Engine H).note job (some c.key.bank) .rebind
            none).note job (some c.key.bank) .hold none
          else ({ e'.put c' with host := host' } : Engine H).note job (some c.key.bank) .rebind
            none) := by
      split
      · exact moved.note _ _ _ _ _
      · exact moved
    exact noted.patched apart hj _ accepted fun _ _ h₁ => h₁.prioritize counted _ _

/-- A job asks for its priority. -/
theorem priority (h : e.SameBut like x extra e') (apart : Scheduler.Apart x like) (hj : job.id ≠ x)
    (accepted : HandlerError.refused (e.priority job s).outcome = false) :
    (e.priority job s).SameBut like x extra (e'.priority job s) := by
  unfold Engine.priority at accepted ⊢
  obtain ⟨hb, hb'⟩ | ⟨b, a, a', hb, hb', same⟩ := h.boundAccount s
  · rw [hb, hb']
    exact h.fault s _
  · rw [hb] at accepted ⊢
    rw [hb']
    simp only [same.isPlaceholder] at accepted ⊢
    cases hp : a.isPlaceholder with
    | false => exact h.prioritize same s b
    | true =>
      rw [hp] at accepted
      simp only [if_true, h.ledger.onlyPlaceholders] at accepted ⊢
      obtain ⟨real, real', hl, hl', found⟩ | ⟨_, _, hl, hl', -⟩ | ⟨hl, hl'⟩ :=
        h.ledger.lookup job.userid job.bank
      · rw [hl] at accepted ⊢
        rw [hl']
        exact h.rebind apart hj found accepted
      · rw [hl, hl']
        exact h.done s _
      · rw [hl, hl']
        cases e.ledger.onlyPlaceholders with
        | true => exact h.done s _
        | false => exact h.fault s _

omit [Scheduler H] in
theorem run (h : e.SameBut like x extra e') :
    (e.run job s).SameBut like x extra (e'.run job s) := by
  unfold Engine.run
  obtain ⟨hb, hb'⟩ | ⟨b, a, a', hb, hb', same⟩ := h.boundAccount s
  · rw [hb, hb']
    exact h.fault s _
  · rw [hb, hb']
    have started : (a.start job.id b).SameBut x (extra (a.start job.id b).handle)
        (a'.start job.id b) := same.start
    exact (h.put started).done _ ()

theorem release (h : e.SameBut like x extra e') (apart : Scheduler.Apart x like)
    (same : a.SameBut x (extra a.handle) a') (spared : x ∉ a.releaseOne.usage.gate.released)
    (accepted : HandlerError.refused (e.release job s a).outcome = false) :
    (e.release job s a).SameBut like x extra (e'.release job s a') := by
  obtain ⟨next, later⟩ := same.releaseNext spared
  have kept := h.put (a := a.releaseOne) later
  unfold Engine.release at accepted ⊢
  have released : a.releaseNext = (a.releaseNext.1, a.releaseOne) := rfl
  have released' : a'.releaseNext = (a.releaseNext.1, a'.releaseOne) := by
    rw [← next]
    rfl
  rw [released] at accepted ⊢
  rw [released']
  cases hn : a.releaseNext.1 with
  | none => exact kept.done s ()
  | some n =>
    rw [hn] at accepted released
    simp only at accepted ⊢
    rcases hr : Scheduler.request e.host (.removeDependency n heldLabel) with ⟨_ | err, host⟩
    · have about : (HostRequest.removeDependency n heldLabel).job? ≠ some x := by
        intro hx
        obtain rfl : n = x := Option.some.inj hx
        obtain ⟨rest, -, -, freed⟩ := Account.releaseNext_some released
        rw [freed] at spared
        exact spared (Gate.mem_insert.mpr (.inl rfl))
      obtain ⟨host', hr', hlike⟩ := apart.others h.host about hr
      rw [hr']
      exact ((kept.withHost hlike).note _ _ _ _ _).done s ()
    · rw [hr] at accepted
      cases accepted

/-- A job leaves. Where `x` is counted as active, both are, or `x` alone, and `x` is not released
for the job. -/
theorem inactive (h : e.SameBut like x extra e') (apart : Scheduler.Apart x like)
    (counted : ∀ b a, e.boundAccount s = some (b, a) → extra a.handle ≠ 0 →
      b.countedActive = true → extra a.handle < a.usage.active)
    (spared : ∀ b a, e.boundAccount s = some (b, a) →
      x ∉ (a.departed job.id b job.allocObserved).usage.gate.released)
    (accepted : HandlerError.refused (e.inactive job s).outcome = false) :
    (e.inactive job s).SameBut like x extra (e'.inactive job s) := by
  unfold Engine.inactive at accepted ⊢
  obtain ⟨hb, hb'⟩ | ⟨b, a, a', hb, hb', same⟩ := h.boundAccount s
  · rw [hb, hb']
    exact h.fault s _
  · have left : (a.left job.id b job.allocObserved).SameBut x
        (extra (a.left job.id b job.allocObserved).handle) (a'.left job.id b job.allocObserved) :=
      same.left (counted b a hb)
    have spared := spared b a hb
    rw [hb] at accepted ⊢
    rw [hb']
    simp only [Account.leave_eq_left, same.frees] at accepted ⊢
    rw [Account.departed] at spared
    cases hf : a.frees job.id b job.allocObserved with
    | false => exact (h.put left).done _ ()
    | true =>
      rw [hf] at accepted spared
      exact h.release apart left spared accepted

omit [Scheduler H] in
theorem updateQueue (h : e.SameBut like x extra e') (queue : Option String) :
    (e.updateQueue job s queue).SameBut like x extra (e'.updateQueue job s queue) := by
  unfold Engine.updateQueue
  obtain ⟨hb, hb'⟩ | ⟨b, a, a', hb, hb', same⟩ := h.boundAccount s
  · rw [hb, hb']
    exact h.fault s _
  · rw [hb, hb']
    simp only [same.isPlaceholder, h.queueFactor? same]
    split
    · exact h.reject s _ _ _
    · exact h.done s ()

omit [Scheduler H] in
theorem queueUpdated (h : e.SameBut like x extra e') :
    (e.queueUpdated job s).SameBut like x extra (e'.queueUpdated job s) := by
  unfold Engine.queueUpdated
  obtain ⟨hb, hb'⟩ | ⟨b, a, a', hb, hb', same⟩ := h.boundAccount s
  · rw [hb, hb']
    exact h.fault s _
  · rw [hb, hb']
    simp only [same.isPlaceholder, h.queueFactor? same]
    split
    · exact h.done s ()
    · cases e.queueFactor? a job.queue with
      | none => exact h.fault s _
      | some factor =>
        have settled : (a.withQueueFactor factor).SameBut x
            (extra (a.withQueueFactor factor).handle) (a'.withQueueFactor factor) :=
          same.withQueueFactor factor factor
        exact (h.put settled).done _ ()

/-- A step for another job goes alike, if the scheduler refuses nothing and `x` is not released. -/
theorem stepOf {topic : Topic} {args : Json} (h : e.SameBut like x extra e')
    (apart : Scheduler.Apart x like) (hj : job.id ≠ x)
    (counted : ∀ b a, e.boundAccount s = some (b, a) → extra a.handle ≠ 0 →
      b.countedActive = true → extra a.handle < a.usage.active)
    (spared : topic = .inactive → ∀ b a, e.boundAccount s = some (b, a) →
      x ∉ (a.departed job.id b job.allocObserved).usage.gate.released)
    (accepted : HandlerError.refused (e.stepOf topic args job s).outcome = false) :
    (e.stepOf topic args job s).SameBut like x extra (e'.stepOf topic args job s) := by
  have plain : ∀ {α : Type} {step : Step α H} {f : α → Reply},
      HandlerError.refused (step.map f).outcome = false →
        HandlerError.refused step.outcome = false := by
    intro α step f unrefused
    rwa [Step.map, HandlerError.refused_map] at unrefused
  cases topic with
  | validate => exact h.validate.map _
  | new => exact (h.newJob apart hj (plain accepted)).map _
  | depend => exact (h.depend apart hj (plain accepted)).map _
  | priority | priorityGet => exact (h.priority apart hj (plain accepted)).map _
  | run => exact h.run.map _
  | inactive => exact (h.inactive apart counted (spared rfl) (plain accepted)).map _
  | updateQueue => exact (h.updateQueue _).map _
  | queueUpdated => exact h.queueUpdated.map _

/-! #### Steps for the job itself -/

/-- The first engine takes a step alone. -/
theorem beside {extra' : Handle → Counter} {topic : Topic} {args : Json}
    (h : e.SameBut like x extra e')
    (ledger : (e.stepOf topic args job s).engine.ledger.SameBut x extra' e'.ledger)
    (host : like (e.stepOf topic args job s).engine.host e'.host) :
    (e.stepOf topic args job s).engine.SameBut like x extra' e' where
  config := by rw [stepOf_config, h.config]
  ledger := ledger
  host := host

/-- The first engine takes a step alone that changes nothing. -/
theorem still {topic : Topic} {args : Json} (h : e.SameBut like x extra e')
    (ledger : (e.stepOf topic args job s).engine.ledger = e.ledger)
    (host : (e.stepOf topic args job s).engine.host = e.host) :
    (e.stepOf topic args job s).engine.SameBut like x extra e' :=
  h.beside (ledger ▸ h.ledger) (host ▸ h.host)

theorem validate_own (h : e.SameBut like x extra e') (args : Json)
    (told : e.ledger.onlyPlaceholders = false) :
    (e.stepOf .validate args job s).engine.SameBut like x extra e' := by
  refine h.still ?_ (e.validate_host job s)
  show (e.validate job s).engine.ledger = e.ledger
  unfold Engine.validate
  rw [told]
  split
  · rfl
  · rfl
  · split <;> rfl

/-- A new job that is bound to a real account is one more active job there. -/
theorem newJob_own (banked : e.ledger.Banked)
    (notHeld : ∀ (h : Handle) (a : Account), e.ledger.objects[h]? = some a →
      job.id ∉ a.usage.gate.held) (apart : Scheduler.Apart job.id like)
    (accepted : HandlerError.refused (e.newJob job {}).outcome = false)
    (hb : (e.newJob job {}).engine.boundAccount (e.newJob job {}).storage = some (b, a))
    (real : a.isPlaceholder = false) (unlimited : a.terms.activeLimit = none) :
    b.countedActive = true ∧
      (e.newJob job {}).engine.SameBut like job.id (fun h => if b.account = h then 1 else 0) e := by
  have config : (e.newJob job {}).engine.config = e.config := e.stepOf_config .new .null job {}
  obtain ⟨hb, ha⟩ := boundAccount_eq_some.mp hb
  obtain ⟨home, binding, -⟩ := e.startBinding_unbound job (s := {}) rfl
  obtain ⟨rs, effect⟩ := e.newJob_effect job {}
  rw [binding] at effect
  suffices h : b.countedActive = true ∧
      (e.newJob job {}).engine.ledger.SameBut job.id (fun h => if b.account = h then 1 else 0)
        e.ledger ∧ like (e.newJob job {}).engine.host e.host from
    ⟨h.1, config.symm, h.2.1, h.2.2⟩
  generalize (e.newJob job {}).engine.ledger = ledger at ha effect ⊢
  generalize (e.newJob job {}).engine.host = host at effect ⊢
  generalize (e.newJob job {}).storage = storage at hb effect
  generalize (e.newJob job {}).outcome = outcome at accepted effect
  cases effect with
  | rejected | detached => cases hb
  | placed ha' hp =>
    cases hb
    cases ha.symm.trans ha'
    cases real.symm.trans hp
  | @enrolled a₀ factor _ err _ ha' hp _ _ _ hserve =>
    cases hb
    have still := startBinding_ledger_of_real banked rfl (binding ▸ ha') hp
    rw [still] at ha ha' ⊢
    obtain rfl : a₀.handle = home := e.ledger.own home a₀ ha'
    rw [if_neg Bool.false_ne_true] at ha ⊢
    have put := Ledger.getElem?_objects_put_of_mem (b := a₀.countActive.withQueueFactor factor)
      ha' rfl a₀.handle
    rw [if_pos rfl] at put
    cases put.symm.trans ha
    have same : (a₀.countActive.withQueueFactor factor).SameBut job.id 1 a₀ :=
      ((Account.sameBut_self (notHeld _ a₀ ha')).countActive_left unlimited).withQueueFactor_left
        factor
    refine ⟨rfl, ?_, ?_⟩
    · rw [← if_pos (c := a₀.handle = a₀.handle) (t := 1) (e := 0) rfl] at same
      refine (Ledger.sameBut_self notHeld).put_left ha' same fun h hk => ?_
      exact if_neg (Ne.symm hk)
    · cases err with
      | some reason => cases accepted
      | none =>
        apply apart.serve_own (apart.refl e.host) _ hserve
        intro r hr
        obtain ⟨p, -, rfl⟩ := List.mem_map.mp hr
        rfl

/-- The job is held. -/
theorem depend_own {args : Json} (h : e.SameBut like job.id extra e')
    (apart : Scheduler.Apart job.id like) (hb : e.boundAccount s = some (b, a))
    (held : (e.depend job s).outcome = .ok .held) :
    (e.stepOf .depend args job s).engine.SameBut like job.id extra e' := by
  have ha := (boundAccount_eq_some.mp hb).2
  obtain ⟨a', ha', same⟩ := h.ledger.there _ a ha
  rw [← e.ledger.own _ a ha] at ha' same
  have effect := e.depend_effect job s
  rw [held] at effect
  obtain ⟨rs, effect⟩ := effect
  change e.DependEffect job s (.ok .held) rs (e.stepOf .depend args job s).engine.host
    (e.stepOf .depend args job s).engine.ledger _ at effect
  suffices both : (e.stepOf .depend args job s).engine.ledger.SameBut job.id extra e'.ledger ∧
      like (e.stepOf .depend args job s).engine.host e'.host from h.beside both.1 both.2
  generalize (e.stepOf .depend args job s).engine.ledger = ledger at effect ⊢
  generalize (e.stepOf .depend args job s).engine.host = host at effect ⊢
  generalize (e.depend job s).storage = storage at effect
  cases effect with
  | held hb' _ hg hreq =>
    cases hb.symm.trans hb'
    obtain ⟨-, rfl⟩ := Account.enterGate_hold hg
    exact ⟨h.ledger.put_left ha' same.hold_left fun _ _ => rfl, apart.own h.host rfl hreq⟩

/-- The job has a real account, so that it is given its priority at once. -/
theorem priority_own {topic : Topic} {args : Json} (h : e.SameBut like x extra e')
    (ht : topic = .priority ∨ topic = .priorityGet) (hb : e.boundAccount s = some (b, a))
    (real : a.isPlaceholder = false) :
    (e.stepOf topic args job s).engine.SameBut like x extra e' := by
  obtain ⟨rs, effect⟩ := e.priority_effect job s
  obtain ⟨-, host, ledger, -⟩ := effect.of_real hb real
  rcases ht with rfl | rfl
  · exact h.still ledger host
  · exact h.still ledger host

theorem updateQueue_own {args : Json} (h : e.SameBut like x extra e') :
    (e.stepOf .updateQueue args job s).engine.SameBut like x extra e' := by
  obtain ⟨ledger, host, -⟩ := e.updateQueue_effect job s (proposedQueue args)
  exact h.still ledger host

/-- The account takes the factor of the job's queue over, which does not matter. -/
theorem queueUpdated_own {args : Json} (h : e.SameBut like x extra e') :
    (e.stepOf .queueUpdated args job s).engine.SameBut like x extra e' := by
  refine h.beside ?_ ((e.queueUpdated_host job s).symm ▸ h.host)
  show (e.queueUpdated job s).engine.ledger.SameBut x extra e'.ledger
  have effect := e.queueUpdated_effect job s
  generalize (e.queueUpdated job s).engine.ledger = ledger at effect ⊢
  generalize (e.queueUpdated job s).storage = storage at effect
  cases effect with
  | ignored => exact h.ledger
  | @settled _ a factor hb _ =>
    have ha := (boundAccount_eq_some.mp hb).2
    obtain ⟨a', ha', same⟩ := h.ledger.there _ a ha
    rw [← e.ledger.own _ a ha] at ha' same
    exact h.ledger.put_left ha' (same.withQueueFactor_left factor) fun _ _ => rfl

/-- The job leaves, without a slot. It is not counted any more. -/
theorem inactive_own {extra' : Handle → Counter} {args : Json} (h : e.SameBut like job.id extra e')
    (hb : e.boundAccount s = some (b, a)) (counted : b.countedActive = true)
    (pos : 0 < a.usage.active) (reserved : b.runReserved = false)
    (fresh : job.id ∉ a.usage.gate.released) (idle : job.allocObserved = false)
    (one : extra b.account = 1) (zero : ∀ h, extra' h = 0)
    (others : ∀ h, h ≠ b.account → extra h = 0) :
    (e.stepOf .inactive args job s).engine.SameBut like job.id extra' e' := by
  have ha := (boundAccount_eq_some.mp hb).2
  obtain ⟨a', ha', same⟩ := h.ledger.there _ a ha
  have leaves : a.leave job.id b job.allocObserved = (false, a.left job.id b false) := by
    rw [idle, Account.leave_eq_left, Account.frees, Gate.hasSlot, reserved,
      Gate.contains_eq_false fresh]
    rfl
  have step : e.inactive job s =
      (e.put (a.left job.id b false)).done { s with binding := none } () := by
    rw [Engine.inactive, hb]
    simp only [leaves]
  refine h.beside ?_ ?_
  · show (e.inactive job s).engine.ledger.SameBut job.id extra' e'.ledger
    rw [step]
    rw [one] at same
    have gone := same.left_left counted pos reserved fresh
    rw [← e.ledger.own _ a ha] at ha' others
    rw [← zero a.handle] at gone
    refine h.ledger.put_left (a := a.left job.id b false) ha' gone fun h hk => ?_
    rw [zero, others h hk]
  · show like (e.inactive job s).engine.host e'.host
    rw [step]
    exact h.host

omit [Scheduler H] in
/-- The feed tells both engines the same. An account that counts the job is given no limit. -/
theorem ingest (h : e.SameBut like x extra e') (kind : FeedKind) (rows : List Json)
    (unlimited : ∀ h : Handle, extra h ≠ 0 →
      ∀ terms ∈ Event.granted h.key (.feed kind rows : Event H), terms.activeLimit = none) :
    (e.ingest kind rows).2.SameBut like x extra (e'.ingest kind rows).2 := by
  refine ⟨h.config, ?_, h.host⟩
  cases kind with
  | accounts =>
    apply h.ledger.updates
    intro u hu h hk counted
    apply unlimited h counted
    rw [hk, Event.granted]
    exact List.mem_map_of_mem (List.mem_filter.mpr ⟨hu, by simp⟩)
  | queues =>
    have ledger := h.ledger
    exact ⟨ledger.there, ledger.absent, ledger.serials, ledger.defaultBanks, rfl, ledger.projects⟩
  | projects =>
    have ledger := h.ledger
    exact ⟨ledger.there, ledger.absent, ledger.serials, ledger.defaultBanks, ledger.queues, rfl⟩

end Engine.SameBut

end JobAdmission

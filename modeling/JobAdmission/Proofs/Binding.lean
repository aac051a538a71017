import JobAdmission.Proofs.Calls

/-!
# How jobs come to their accounts

This module says how a call on a job can change the account that the job is bound to
(`Engine.stepOf_binds`). A new job is bound to a placeholder, or admitted to a real account;
a job of a placeholder is moved to a real account when it asks for its priority; and a job
that leaves, or whose account detaches it, is bound to none. Every other call leaves the job
with its account. Where a job comes to a real account, some changes of its specification are
asked for, and the scheduler accepts them all unless the call ends in a fault (`Engine.Asked`).
They are not the same ones: a job that is moved is given no project.
-/

namespace JobAdmission

namespace Engine

variable {H : Type} [Scheduler H] {e : Engine H} {job : Job} {s s' : JobStorage}
  {h host h' : H} {l l' : Ledger} {rs rs' : List HostRequest} {b : JobBinding} {a : Account}
  {k : AccountKey} {ps : List JobspecPatch} {topic : Topic}

/-! ### Changes of specifications -/

/-- In a call on a job, the scheduler is asked for these changes of its specification: it
accepts no others, and all of them unless the call ends in a fault for that. -/
structure Asked {α : Type} (job : Job) (ps : List JobspecPatch)
    (outcome : Except HandlerError α) (rs : List HostRequest) : Prop where
  only : ∀ p, .updateJobspec job.id p ∈ rs → p ∈ ps
  all : (∀ err, outcome ≠ .error (.fault (.jobspecUpdate err))) →
    ∀ p ∈ ps, .updateJobspec job.id p ∈ rs

theorem Asked.map {α β : Type} {outcome : Except HandlerError α} (h : Asked job ps outcome rs)
    (f : α → β) : Asked job ps (outcome.map f) rs where
  only := h.only
  all accepted := by
    refine h.all fun err herr => accepted err ?_
    rw [herr]
    rfl

theorem asked_of_serve {α : Type} {x : α} {err : Option HostError}
    (hserve : Scheduler.serve h (patchRequests job ps) = (err, h'))
    (hrs : ∀ p, .updateJobspec job.id p ∉ rs) :
    Asked job ps (patchAnswer x err) (rs ++ Scheduler.accepted h (patchRequests job ps)) where
  only p hp := by
    have accepted := (List.mem_append.mp hp).resolve_left (hrs p)
    have asked := (Scheduler.accepted_sublist h (patchRequests job ps)).subset accepted
    obtain ⟨p', hp', same⟩ := List.mem_map.mp asked
    cases same
    exact hp'
  all faultless p hp := by
    cases err with
    | some err => exact absurd rfl (faultless err)
    | none =>
      rw [Scheduler.accepted_of_serve hserve]
      exact List.mem_append_right _ (List.mem_map_of_mem hp)

/-! ### New jobs -/

/-- A job that is bound already stays with its account, or is detached from it. -/
theorem NewJobEffect.account_of_bound {byDefault : Bool} {outcome : Except HandlerError Unit}
    (effect : NewJobEffect h job l b byDefault s outcome rs h' l' s') (hs : s.binding = some b) :
    s'.binding.map JobBinding.account = s.binding.map JobBinding.account ∨
      s'.binding = none := by
  cases effect with
  | rejected => exact .inl rfl
  | placed | enrolled =>
    left
    exact congrArg (·.map JobBinding.account) hs.symm
  | detached => exact .inr rfl

/-- A job that is bound to nothing stays so, or is bound to the account that it starts from,
which is a placeholder or is to be written into the job's specification. -/
theorem NewJobEffect.account_of_unbound {byDefault : Bool} {outcome : Except HandlerError Unit}
    (effect : NewJobEffect h job l b byDefault s outcome rs h' l' s') (hs : s.binding = none) :
    s'.binding = none ∨
      s'.binding.map JobBinding.account = some b.account ∧
        ∃ a, l.objects[b.account]? = some a ∧
          (a.isPlaceholder = true ∧ l' = l ∨
            a.isPlaceholder = false ∧ Asked job (givenPatches job a byDefault) outcome rs) := by
  cases effect with
  | rejected => exact .inl hs
  | detached => exact .inl rfl
  | placed ha hp => exact .inr ⟨rfl, _, ha, .inl ⟨hp, rfl⟩⟩
  | enrolled ha hp _ _ hps hpatch =>
    subst hps
    exact .inr ⟨rfl, _, ha, .inr ⟨hp, asked_of_serve hpatch fun _ => List.not_mem_nil⟩⟩

/-! ### Moved jobs -/

omit [Scheduler H] in
theorem notMem_holdRequests (decision : Gate.Decision) (p : JobspecPatch) :
    .updateJobspec job.id p ∉ holdRequests job decision := by
  cases decision with
  | proceed => exact List.not_mem_nil
  | hold => simp [holdRequests]

/-- A job that asks for its priority stays bound as it is, or is moved from a placeholder to the
real account that is found for it. -/
theorem PriorityEffect.account_cases {outcome : Except HandlerError PriorityOutcome}
    (effect : PriorityEffect e job s outcome rs h' l' s') :
    s' = s ∨ ∃ b p a, e.boundAccount s = some (b, p) ∧ p.isPlaceholder = true ∧
      e.ledger.lookup job.userid job.bank = .found a ∧
      s'.binding.map JobBinding.account = some a.handle ∧
      Asked job (bankPatches job a.key.bank) outcome rs := by
  cases effect with
  | unbound | prioritized | stayed | refused => exact .inl rfl
  | @rebound b p a a' decision factor _ _ _ _ hb hp hf hg _ _ hps hpatch =>
    have handle : a'.handle = a.handle := by
      obtain ⟨gate, rfl⟩ := Account.eq_withGate_of_enterGate hg
      rfl
    have key : a'.key = a.key := congrArg Handle.key handle
    rw [key] at hps
    subst hps
    refine .inr ⟨b, p, a, hb, hp, hf, ?_, asked_of_serve hpatch (notMem_holdRequests decision)⟩
    rw [reboundStorage_binding, Option.map_some, rebound_account]
    exact congrArg some handle

/-- A job that is given its priority is bound to a real account then, and its priority is that of
its queue factor among the fairshare of the account. -/
theorem PriorityEffect.of_value {value : Int}
    (effect : PriorityEffect e job s (.ok (.value value)) rs h' l' s') :
    ∃ b a, s'.binding = some b ∧ l'.objects[b.account]? = some a ∧ a.isPlaceholder = false ∧
      value = Priority.compute a.terms.fairshare b.queueFactor job.urgency := by
  generalize ho : Except.ok (PriorityOutcome.value value) = outcome at effect
  cases effect with
  | unbound | refused => cases ho
  | stayed _ _ why => exact absurd ho.symm (why.ne_value value)
  | prioritized hb real =>
    obtain ⟨hb, ha⟩ := boundAccount_eq_some.mp hb
    cases ho
    exact ⟨_, _, hb, ha, real, rfl⟩
  | @rebound b _ real a' decision factor err _ _ _ _ _ hf hg =>
    obtain ⟨gate, rfl⟩ := Account.eq_withGate_of_enterGate hg
    have found := Ledger.isPlaceholder_of_found hf
    refine ⟨_, ((real.withGate gate).countActive).withQueueFactor factor,
      reboundStorage_binding .., ?_, found, ?_⟩
    · have there := Ledger.object_of_account? (Ledger.account?_of_lookup (.inl hf)).1
      rw [rebound_account, Ledger.getElem?_objects_put, if_pos rfl]
      exact congrArg (Option.map _) there
    · cases err with
      | none =>
        cases ho
        cases decision <;> rfl
      | some err => cases ho

/-- A job that is given its priority is bound to a real account then. -/
theorem PriorityEffect.real_of_value {value : Int}
    (effect : PriorityEffect e job s (.ok (.value value)) rs h' l' s') :
    ∃ b a, s'.binding = some b ∧ l'.objects[b.account]? = some a ∧
      a.isPlaceholder = false := by
  obtain ⟨b, a, hb, ha, real, -⟩ := effect.of_value
  exact ⟨b, a, hb, ha, real⟩

/-! ### Calls -/

/-- A job that leaves is bound to none, if it was bound to an account. -/
theorem InactiveEffect.binding_cases {outcome : Except HandlerError Unit}
    (effect : InactiveEffect e job s outcome rs h' l' s') : s' = s ∨ s'.binding = none := by
  cases effect with
  | unbound => exact .inl rfl
  | left | freed | released | kept => exact .inr rfl

/-- How a call leaves its job bound, and what is asked for where it comes to a real account. -/
inductive Binds (e : Engine H) (topic : Topic) (job : Job) (s : JobStorage) (step : Step Reply H)
    (rs : List HostRequest) : Prop where
  /-- The job stays with its account. -/
  | kept (same : step.storage.binding.map JobBinding.account =
      s.binding.map JobBinding.account)
  /-- The job is bound to no account any more. -/
  | freed (ht : topic = .new ∨ topic = .inactive) (hb : step.storage.binding = none)
  /-- The job is new, and is bound to a placeholder of its user's. -/
  | placed {a : Account} (ht : topic = .new) (hs : s.binding = none)
    (hk : step.storage.binding.map JobBinding.account = some a.handle)
    (hu : a.key.userid = job.userid) (ha : step.engine.ledger.account? a.key = some a)
    (hp : a.isPlaceholder = true)
  /-- The job is new, and is bound to a real account of its user's. The account was found for
  the job, unless it is in the placeholders' bank. -/
  | admitted {a : Account} {byDefault : Bool} (ht : topic = .new) (hs : s.binding = none)
    (hk : step.storage.binding.map JobBinding.account = some a.handle)
    (hu : a.key.userid = job.userid) (ha : e.ledger.account? a.key = some a)
    (hp : a.isPlaceholder = false)
    (found : byDefault = job.bank.isNone ∨ a.key.bank = Account.placeholderBank)
    (asked : Asked job (givenPatches job a byDefault) step.outcome rs)
  /-- The job is moved from a placeholder to the real account that is found for it. -/
  | moved {b : JobBinding} {p a : Account} (ht : topic = .priority ∨ topic = .priorityGet)
    (hb : e.boundAccount s = some (b, p)) (hp : p.isPlaceholder = true)
    (hf : e.ledger.lookup job.userid job.bank = .found a)
    (hk : step.storage.binding.map JobBinding.account = some a.handle)
    (asked : Asked job (bankPatches job a.key.bank) step.outcome rs)

omit [Scheduler H] in
/-- A job that is bound to nothing starts at an account of its user's. A real one was there
before, and was found for the job unless it is in the placeholders' bank. -/
theorem account_of_startBinding (hs : s.binding = none)
    (ha : (e.startBinding job s).2.2.ledger.objects[(e.startBinding job s).1.account]? = some a) :
    a.handle = (e.startBinding job s).1.account ∧
      (e.startBinding job s).2.2.ledger.account? a.key = some a ∧ a.key.userid = job.userid ∧
      (a.isPlaceholder = false → e.ledger.account? a.key = some a ∧
        ((e.startBinding job s).2.1 = job.bank.isNone ∨
          a.key.bank = Account.placeholderBank)) := by
  have handle := (e.startBinding job s).2.2.ledger.own _ a ha
  have there : (e.startBinding job s).2.2.ledger.account? a.key = some a := by
    have kept := e.handle?_startBinding job hs
    rw [← handle] at kept ha
    exact (Ledger.account?_of_handle? kept).trans ha
  refine ⟨handle, there, ?_⟩
  obtain ⟨a', hf, start⟩ | ⟨a', hl, start⟩ | ⟨-, start⟩ := e.startBinding_cases job hs
  · rw [start] at ha there ⊢
    obtain ⟨found, hu⟩ := Ledger.account?_of_lookup (.inl hf)
    cases ha.symm.trans (Ledger.object_of_account? found)
    exact ⟨hu, fun _ => ⟨found, .inl rfl⟩⟩
  · rw [start] at ha ⊢
    obtain ⟨found, hu⟩ := Ledger.account?_of_lookup (.inr hl)
    cases ha.symm.trans (Ledger.object_of_account? found)
    refine ⟨hu, fun real => ?_⟩
    simp [Ledger.isPlaceholder_of_lookup hl] at real
  · rw [start] at handle there ⊢
    have key : a.key = ⟨job.userid, Account.placeholderBank⟩ :=
      (congrArg Handle.key handle).trans (Ledger.key_of_handle?
        (e.ledger.handle?_ensurePlaceholder job.userid e.config.placeholderFairshare))
    refine ⟨congrArg AccountKey.userid key, fun real => ⟨?_, .inr (congrArg AccountKey.bank key)⟩⟩
    change (e.ledger.ensurePlaceholder _ _).account? _ = some a at there
    rw [Ledger.account?_ensurePlaceholder] at there
    split at there
    · cases there
      cases real
    · exact there

theorem newJob_binds (e : Engine H) (job : Job) (s : JobStorage) :
    ∃ rs, Scheduler.Accepts e.host rs (e.newJob job s).engine.host ∧
      Binds e .new job s ((e.newJob job s).map fun _ => .accepted) rs := by
  obtain ⟨rs, effect⟩ := e.newJob_effect job s
  refine ⟨rs, effect.accepts, ?_⟩
  cases hs : s.binding with
  | some b =>
    rw [e.startBinding_of_bound job hs] at effect
    rcases effect.account_of_bound hs with same | gone
    · exact .kept same
    · exact .freed (.inl rfl) gone
  | none =>
    obtain gone | ⟨hk, a, ha, ⟨hp, same⟩ | ⟨hp, asked⟩⟩ := effect.account_of_unbound hs
    · exact .freed (.inl rfl) gone
    · obtain ⟨handle, there, hu, -⟩ := account_of_startBinding hs ha
      rw [← same] at there
      exact .placed rfl hs (handle ▸ hk) hu there hp
    · obtain ⟨handle, -, hu, there⟩ := account_of_startBinding hs ha
      obtain ⟨there, found⟩ := there hp
      exact .admitted rfl hs (handle ▸ hk) hu there hp found (asked.map _)

theorem priority_binds (e : Engine H) (ht : topic = .priority ∨ topic = .priorityGet) (job : Job)
    (s : JobStorage) : ∃ rs, Scheduler.Accepts e.host rs (e.priority job s).engine.host ∧
      Binds e topic job s ((e.priority job s).map .ofPriority) rs := by
  obtain ⟨rs, effect⟩ := e.priority_effect job s
  refine ⟨rs, effect.accepts, ?_⟩
  rcases effect.account_cases with same | ⟨b, p, a, hb, hp, hf, hk, asked⟩
  · exact .kept (congrArg (·.binding.map JobBinding.account) same)
  · exact .moved ht hb hp hf hk (asked.map _)

/-- A call keeps the account of its job, frees the job, or brings it to an account in one of
three ways. -/
theorem stepOf_binds (e : Engine H) (topic : Topic) (args : Json) (job : Job)
    (s : JobStorage) : ∃ rs, Scheduler.Accepts e.host rs (e.stepOf topic args job s).engine.host ∧
      Binds e topic job s (e.stepOf topic args job s) rs := by
  cases topic with
  | validate =>
    exact ⟨[], .of_eq (e.validate_host job s),
      .kept (congrArg (·.binding.map JobBinding.account) (e.validate_storage job s))⟩
  | new => exact e.newJob_binds job s
  | depend =>
    obtain ⟨rs, effect⟩ := e.depend_effect job s
    exact ⟨rs, effect.accepts, .kept effect.account_eq⟩
  | priority => exact e.priority_binds (.inl rfl) job s
  | priorityGet => exact e.priority_binds (.inr rfl) job s
  | run =>
    exact ⟨[], .of_eq (e.run_host job s), .kept (e.run_effect job s).account_eq⟩
  | inactive =>
    obtain ⟨rs, effect⟩ := e.inactive_effect job s
    refine ⟨rs, effect.accepts, ?_⟩
    rcases effect.binding_cases with same | gone
    · exact .kept (congrArg (·.binding.map JobBinding.account) same)
    · exact .freed (.inr rfl) gone
  | updateQueue =>
    obtain ⟨-, hhost, hstorage⟩ := e.updateQueue_effect job s (proposedQueue args)
    exact ⟨[], .of_eq hhost, .kept (congrArg (·.binding.map JobBinding.account) hstorage)⟩
  | queueUpdated =>
    exact ⟨[], .of_eq (e.queueUpdated_host job s), .kept (e.queueUpdated_effect job s).account_eq⟩

end Engine

/-! ### Events -/

/-- The feed delivers rows in this event. -/
def Event.isFeed {H : Type} : Event H → Bool
  | .feed _ _ => true
  | _ => false

/-- The job that an event is a call on. -/
def Event.job? {H : Type} : Event H → Option JobId
  | .call _ _ job => some job.id
  | _ => none

/-- What an event makes of an account: the feed may give it other terms, a call may change what
its jobs take up, and nothing else changes it. -/
def Account.Evolves {H : Type} (a a' : Account) : Event H → Prop
  | .feed _ _ => a' = a ∨ ∃ terms, a' = a.refresh terms
  | .call _ _ _ => a.UsedAs a'
  | .reprioritize | .scheduler _ => a' = a

/-- An account stays the one that it is, and is real if it was. -/
theorem Account.Evolves.stays {H : Type} {ev : Event H} {a a' : Account} (h : a.Evolves a' ev) :
    a'.handle = a.handle ∧ (a.isPlaceholder = false → a'.isPlaceholder = false) := by
  cases ev with
  | feed =>
    rcases h with rfl | ⟨terms, rfl⟩
    · exact ⟨rfl, id⟩
    · exact ⟨rfl, fun _ => rfl⟩
  | call =>
    obtain ⟨usage, rfl⟩ := h
    exact ⟨rfl, id⟩
  | reprioritize | scheduler =>
    obtain rfl := h
    exact ⟨rfl, id⟩

namespace World

variable {H : Type} [Scheduler H] {w : World H} {ev : Event H} {j : JobId} {k : AccountKey}
  {topic : Topic} {args : Json} {job : Job} {l l' : LiveJob}

/-- Nothing that is kept for a job changes but in calls on it. -/
theorem live_after_of_ne (h : ev.job? ≠ some j) : (w.after ev).live j = w.live j := by
  cases ev with
  | feed | reprioritize | scheduler => rfl
  | call topic args job =>
    refine Function.update_of_ne ?_ _ _
    rintro rfl
    exact h rfl

theorem handleOf_after_of_ne (h : ev.job? ≠ some j) :
    (w.after ev).handleOf j = w.handleOf j := by
  rw [handleOf, storage, live_after_of_ne h]
  rfl

theorem accountOf_after_of_ne (h : ev.job? ≠ some j) :
    (w.after ev).accountOf j = w.accountOf j := by
  rw [accountOf_eq, handleOf_after_of_ne h, accountOf_eq]

omit [Scheduler H] in
/-- A live job after a call is as before, or is kept as the call leaves it. -/
theorem liveAfter_cases {step : Step Reply H}
    (hl : w.liveAfter topic job step = some l) :
    w.live job.id = some l ∨ l.storage = step.storage := by
  unfold liveAfter at hl
  split at hl
  · exact .inl hl
  · cases hl
  · cases hl
    exact .inr rfl
  · obtain ⟨l₀, -, rfl⟩ := Option.map_eq_some_iff.mp hl
    exact .inr rfl

omit [Scheduler H] in
/-- A call leaves the user and the bank of its job as they are. -/
theorem user_of_liveAfter {step : Step Reply H} (hl : w.live job.id = some l)
    (hl' : w.liveAfter topic job step = some l') : l'.userid = l.userid ∧ l'.bank = l.bank := by
  unfold liveAfter at hl'
  rw [hl] at hl'
  split at hl'
  · cases hl'
    exact ⟨rfl, rfl⟩
  · cases hl'
  · rename_i hnone
    cases hnone
  · cases hl'
    exact ⟨rfl, rfl⟩

theorem user_of_live_after (hl : w.live j = some l) (hl' : (w.after ev).live j = some l') :
    l'.userid = l.userid ∧ l'.bank = l.bank := by
  by_cases hj : ev.job? = some j
  · cases ev with
    | feed | reprioritize | scheduler => cases hj
    | call topic args job =>
      obtain rfl : job.id = j := Option.some.inj hj
      exact user_of_liveAfter hl (live_after_call.symm.trans hl')
  · rw [live_after_of_ne hj, hl] at hl'
    cases hl'
    exact ⟨rfl, rfl⟩

/-- After a call, its job is bound as before or as the call leaves it. -/
theorem handleOf_after_call_cases {home : Handle}
    (hh : (w.after (.call topic args job)).handleOf job.id = some home) :
    w.handleOf job.id = some home ∨
      (w.step topic args job).storage.binding.map JobBinding.account = some home := by
  rw [handleOf, storage, live_after_call] at hh
  cases hl : w.liveAfter topic job (w.step topic args job) with
  | none =>
    rw [hl] at hh
    cases hh
  | some l =>
    rw [hl] at hh
    change l.storage.binding.map JobBinding.account = some home at hh
    rcases liveAfter_cases hl with same | same
    · rw [handleOf, storage_of_live same]
      exact .inl hh
    · exact .inr (same ▸ hh)

/-- A job comes to another account only in a call that brings it there. -/
theorem call_of_handleOf {home : Handle} (hh : (w.after ev).handleOf j = some home)
    (hne : w.handleOf j ≠ some home) : ∃ topic args job rs, ev = .call topic args job ∧
      job.id = j ∧ w.Accepts ev rs ∧
      (w.step topic args job).storage.binding.map JobBinding.account = some home ∧
      Engine.Binds w.engine topic job (w.storage j) (w.step topic args job) rs := by
  have called : ev.job? = some j := by
    by_contra hother
    exact hne ((handleOf_after_of_ne hother).symm.trans hh)
  cases ev with
  | feed | reprioritize | scheduler => cases called
  | call topic args job =>
    obtain rfl : job.id = j := Option.some.inj called
    have hstep := (handleOf_after_call_cases hh).resolve_left hne
    obtain ⟨rs, accepts, binds⟩ := w.engine.stepOf_binds topic args job (w.storage job.id)
    exact ⟨topic, args, job, rs, rfl, rfl, accepts, hstep, binds⟩

/-- A job comes to an account of another key only in a call that brings it there. -/
theorem call_of_accountOf (hk : (w.after ev).accountOf j = some k)
    (hne : w.accountOf j ≠ some k) : ∃ topic args job rs, ∃ home : Handle,
      ev = .call topic args job ∧ job.id = j ∧ w.Accepts ev rs ∧ home.key = k ∧
      (w.step topic args job).storage.binding.map JobBinding.account = some home ∧
      Engine.Binds w.engine topic job (w.storage j) (w.step topic args job) rs := by
  rw [accountOf_eq] at hk hne
  obtain ⟨home, hh, rfl⟩ := Option.map_eq_some_iff.mp hk
  obtain ⟨topic, args, job, rs, rfl, rfl, accepts, hstep, binds⟩ :=
    call_of_handleOf hh fun same => hne (congrArg (Option.map Handle.key) same)
  exact ⟨topic, args, job, rs, home, rfl, rfl, accepts, rfl, hstep, binds⟩

/-- Only a job that asks for its priority is given it. -/
theorem priority_of_value {value : Int64}
    (hv : (w.step topic args job).outcome = .ok (.priority value)) :
    (topic = .priority ∨ topic = .priorityGet) ∧
      ∃ v, (w.engine.priority job (w.storage job.id)).outcome = .ok (.value v) := by
  cases topic with
  | priority | priorityGet =>
    obtain ⟨outcome, ho, given⟩ := Step.outcome_map_eq_ok.mp hv
    cases outcome with
    | value v => exact ⟨by simp, v, ho⟩
    | unavailable => cases given
  | depend =>
    obtain ⟨outcome, -, given⟩ := Step.outcome_map_eq_ok.mp hv
    cases outcome <;> cases given
  | validate | new | run | inactive | updateQueue | queueUpdated =>
    obtain ⟨_, -, given⟩ := Step.outcome_map_eq_ok.mp hv
    cases given

/-- A job that is given its priority is bound to a real account then. -/
theorem real_after_of_value (hl : w.live job.id = some l) {value : Int64}
    (hv : (w.step topic args job).outcome = .ok (.priority value)) :
    ∃ b a, ((w.after (.call topic args job)).storage job.id).binding = some b ∧
      (w.after (.call topic args job)).engine.ledger.objects[b.account]? = some a ∧
      a.isPlaceholder = false := by
  obtain ⟨ht, v, hvalue⟩ := priority_of_value hv
  obtain ⟨rs, effect⟩ := w.engine.priority_effect job l.storage
  rw [storage_of_live hl] at hvalue
  rw [hvalue] at effect
  obtain ⟨b, a, hb, ha, real⟩ := effect.real_of_value
  obtain ⟨storage, ledger⟩ := after_priority args ht hl
  rw [← storage] at hb
  rw [← ledger] at ha
  exact ⟨b, a, hb, ha, real⟩

/-- In this event, the scheduler refuses to change the specification of the job. -/
def refusesSpec (w : World H) (j : JobId) : Event H → Bool
  | .call topic args job => job.id = j && match (w.step topic args job).outcome with
    | .error (.fault (.jobspecUpdate _)) => true
    | _ => false
  | _ => false

/-- Where the scheduler does not refuse to change its specification, a call on a job ends in no
fault for that. -/
theorem ne_jobspecUpdate (h : w.refusesSpec job.id (.call topic args job) = false)
    (err : HostError) : (w.step topic args job).outcome ≠ .error (.fault (.jobspecUpdate err)) := by
  intro herr
  simp [refusesSpec, herr] at h

/-- An event that is none of the feed only lets the ledger grow. -/
theorem growsTo_after (w : World H) (h : ev.isFeed = false) :
    w.engine.ledger.GrowsTo (w.after ev).engine.ledger := by
  cases ev with
  | feed => cases h
  | reprioritize | scheduler => exact .refl _
  | call topic args job => exact w.engine.growsTo_stepOf topic args job (w.storage job.id)

theorem feed_or_growsTo (w : World H) (ev : Event H) :
    (∃ kind rows, ev = .feed kind rows) ∨
      w.engine.ledger.GrowsTo (w.after ev).engine.ledger := by
  cases ev with
  | feed kind rows => exact .inl ⟨kind, rows, rfl⟩
  | reprioritize => exact .inr (w.growsTo_after rfl)
  | scheduler host => exact .inr (w.growsTo_after rfl)
  | call topic args job => exact .inr (w.growsTo_after rfl)

/-- The feed leaves every account with the last terms that it grants. -/
theorem account_after_feed (kind : FeedKind) (rows : List Json) (k : AccountKey) :
    (w.after (.feed kind rows)).account k =
      match ((.feed kind rows : Event H).granted k).getLast? with
      | none => w.account k
      | some terms => some (.told k (w.account k) terms) := by
  cases kind with
  | accounts =>
    exact w.engine.ledger.account?_updates (accepted AccountRecord.readUpdate rows) k
  | queues => rfl
  | projects => rfl

/-- Whatever happens, no account is put in the place of another one. -/
theorem keyed_after (hw : w.engine.ledger.Keyed) : (w.after ev).engine.ledger.Keyed := by
  obtain ⟨kind, rows, rfl⟩ | grows := w.feed_or_growsTo ev
  · intro k a ha
    change (w.after (.feed kind rows)).account k = some a at ha
    rw [account_after_feed] at ha
    split at ha
    · exact hw k a ha
    · cases ha
      cases hbefore : w.account k with
      | none => rfl
      | some a => exact hw k a hbefore
  · exact hw.of_growsTo grows

/-- The account that an event leaves under a key was made of the one before. -/
theorem account_evolves (ev : Event H) {a : Account}
    (ha : w.account k = some a) :
    ∃ a', (w.after ev).account k = some a' ∧ a.Evolves a' ev := by
  cases ev with
  | feed kind rows =>
    rw [account_after_feed, ha]
    cases ((.feed kind rows : Event H).granted k).getLast? with
    | none => exact ⟨a, rfl, .inl rfl⟩
    | some terms => exact ⟨_, rfl, .inr ⟨terms, rfl⟩⟩
  | call topic args job =>
    exact (w.engine.growsTo_stepOf topic args job (w.storage job.id)).stays k a ha
  | reprioritize | scheduler => exact ⟨a, ha, rfl⟩

/-- An account that is there stays there. -/
theorem exists_account_after {a : Account} (ha : w.account k = some a) :
    ∃ a', (w.after ev).account k = some a' ∧ a'.handle = a.handle :=
  (account_evolves ev ha).imp fun _ h => ⟨h.1, h.2.stays.1⟩

/-- A real account stays real. -/
theorem real_after (ev : Event H)
    (h : ∃ a, w.account k = some a ∧ a.isPlaceholder = false) :
    ∃ a, (w.after ev).account k = some a ∧ a.isPlaceholder = false := by
  obtain ⟨a, ha, real⟩ := h
  obtain ⟨a', ha', evolves⟩ := account_evolves ev ha
  exact ⟨a', ha', evolves.stays.2 real⟩

/-- Where placeholders are in their own bank, they are so after any event. -/
theorem standIns_after
    (standIns : ∀ k a, w.account k = some a → a.isPlaceholder = true →
      k.bank = Account.placeholderBank)
    (k : AccountKey) (a : Account) (ha : (w.after ev).account k = some a)
    (hp : a.isPlaceholder = true) : k.bank = Account.placeholderBank := by
  obtain ⟨kind, rows, rfl⟩ | grows := w.feed_or_growsTo ev
  · rw [account_after_feed] at ha
    split at ha
    · exact standIns k a ha hp
    · cases ha
      -- an account that the feed tells of is real
      cases hbefore : w.account k with
      | none => simp [hbefore, Account.told, Account.isPlaceholder] at hp
      | some a => simp [hbefore, Account.told, Account.refresh, Account.isPlaceholder] at hp
  · cases hbefore : w.account k with
    | none => exact (grows.comes k a ha hbefore).2.2
    | some a₀ =>
      obtain ⟨_, ha', usage, rfl⟩ := grows.stays k a₀ hbefore
      cases ha.symm.trans ha'
      exact standIns k a₀ hbefore hp

/-- Whatever happens, every user with an account has a default bank. -/
theorem banked_after (banked : w.engine.ledger.Banked) :
    (w.after ev).engine.ledger.Banked := by
  obtain ⟨kind, rows, rfl⟩ | grows := w.feed_or_growsTo ev
  · cases kind with
    | accounts => exact banked.updates (accepted AccountRecord.readUpdate rows)
    | queues | projects => exact banked
  · exact banked.of_growsTo grows

/-- A job comes to an account that is there and is of the user that the call tells. -/
theorem home_of_handleOf {home : Handle} (hh : (w.after ev).handleOf j = some home)
    (hne : w.handleOf j ≠ some home) : ∃ topic args job, ev = .call topic args job ∧ job.id = j ∧
      topic ≠ .validate ∧ home.key.userid = job.userid ∧
      ∃ a, (w.after ev).account home.key = some a ∧ a.handle = home := by
  obtain ⟨topic, args, job, rs, rfl, rfl, -, hstep, binds⟩ := call_of_handleOf hh hne
  refine ⟨topic, args, job, rfl, rfl, ?_⟩
  cases binds with
  | kept same => exact absurd (same.symm.trans hstep) hne
  | freed _ hb => simp [hb] at hstep
  | placed ht _ hh' hu ha =>
    cases hh'.symm.trans hstep
    exact ⟨by simp [ht], hu, _, ha, rfl⟩
  | admitted ht _ hh' hu ha =>
    cases hh'.symm.trans hstep
    exact ⟨by simp [ht], hu, exists_account_after ha⟩
  | moved ht _ _ hf hh' =>
    cases hh'.symm.trans hstep
    obtain ⟨ha, hu⟩ := Ledger.account?_of_lookup (.inl hf)
    exact ⟨by rcases ht with rfl | rfl <;> simp, hu, exists_account_after ha⟩

theorem home_of_accountOf (hk : (w.after ev).accountOf j = some k)
    (hne : w.accountOf j ≠ some k) : ∃ topic args job, ev = .call topic args job ∧ job.id = j ∧
      topic ≠ .validate ∧ k.userid = job.userid ∧ ∃ a, (w.after ev).account k = some a := by
  rw [accountOf_eq] at hk hne
  obtain ⟨home, hh, rfl⟩ := Option.map_eq_some_iff.mp hk
  obtain ⟨topic, args, job, hev, hj, ht, hu, a, ha, -⟩ :=
    home_of_handleOf hh fun same => hne (congrArg (Option.map Handle.key) same)
  exact ⟨topic, args, job, hev, hj, ht, hu, a, ha⟩

theorem Reached.keyed {rule : World H → Event H → Prop} (h : w.Reached rule) :
    w.engine.ledger.Keyed := by
  refine h.invariant (I := fun w => w.engine.ledger.Keyed) (fun config host audit k a ha => ?_)
    fun _ _ hw _ => keyed_after hw
  cases (account_start config host audit k).symm.trans ha

theorem Reached.banked {rule : World H → Event H → Prop} (h : w.Reached rule) :
    w.engine.ledger.Banked := by
  refine h.invariant (I := fun w => w.engine.ledger.Banked) (fun config host audit k a ha => ?_)
    fun _ _ hw _ => banked_after hw
  cases (account_start config host audit k).symm.trans ha

end World

end JobAdmission

import JobAdmission.Proofs.Binding
import JobAdmission.Proofs.PriorityOrder
import JobAdmission.Proofs.Release

/-!
# What a priority is made of

This module proves that the priority that a job is given depends on the feed and on what the host
told of the queue of this job, and on nothing else (`World.priority_of_history`). The fairshare is
that of the last record for the account of the job. The queue factor is the one that the queue of
the job had when a call on the job last took it over: when the job was announced, when it was moved
from a placeholder to its real account, or when its queue changed. That the account keeps a factor
too, which all its jobs overwrite, does not matter.

The first part follows the factor through a run (`World.Obeys.queueFactor`): each call leaves a job
with the factor that it took over, or with the one that the job had (`Engine.queueFactor_stepOf`).
The second part compares the answer with the one after any calls on other jobs: what a job would
be given, if the scheduler refuses nothing (`Engine.offer`), is the same as long as the ledger only
grows.
-/

namespace JobAdmission

/-! ### Answers -/

namespace Priority

/-- A priority is answered as it is computed. -/
theorem toInt_compute (fairshare : Binary64) (queueFactor : Int64) (urgency : Int32) :
    (Int64.ofInt (compute fairshare queueFactor urgency)).toInt =
      compute fairshare queueFactor urgency := by
  obtain ⟨low, high⟩ := compute_bounds fairshare queueFactor urgency
  unfold least at low
  unfold greatest at high
  apply Int64.toInt_ofInt_of_le
  · omega
  · omega

end Priority

/-! ### The factor of a queue -/

/-- The factor of the queue of a job, as it is kept for the job; 0 if none is. -/
def JobStorage.queueFactor (s : JobStorage) : Int64 := (s.binding.map (·.queueFactor)).getD 0

/-- The real account that a job is bound to. -/
def Ledger.realFor (l : Ledger) (s : JobStorage) : Option Account :=
  s.binding.bind fun b => l.objects[b.account]?.filter fun a => !a.isPlaceholder

/-- The call looks at the queue of its job: when the job is announced, when its queue changed, and
when the job is moved to another account before it is given a priority. -/
def Topic.looksAtQueue (topic : Topic) (s s' : JobStorage) : Bool :=
  match topic with
  | .new | .queueUpdated => true
  | .priority | .priorityGet => s.binding.map (·.account) ≠ s'.binding.map (·.account)
  | .validate | .depend | .run | .inactive | .updateQueue => false

/-- The call did what it is there for. At most, the scheduler refused to change a specification. -/
def HandlerError.carriedOut : Except HandlerError Reply → Bool
  | .ok _ => true
  | .error (.fault (.jobspecUpdate _)) => true
  | .error _ => false

namespace Ledger

variable {l : Ledger} {s : JobStorage} {b : JobBinding} {a : Account}

theorem realFor_of_unbound (hs : s.binding = none) : l.realFor s = none := by
  rw [realFor, hs]
  rfl

theorem realFor_of_placeholder (hb : s.binding = some b) (ha : l.objects[b.account]? = some a)
    (hp : a.isPlaceholder = true) : l.realFor s = none := by
  simp [realFor, hb, ha, hp]

theorem realFor_of_real (hb : s.binding = some b) (ha : l.objects[b.account]? = some a)
    (hp : a.isPlaceholder = false) : l.realFor s = some a := by
  simp [realFor, hb, ha, hp]

theorem realFor_put {t : Account} (hb : s.binding = some b) (ha : l.objects[b.account]? = some a)
    (same : t.handle = a.handle) (hp : t.isPlaceholder = false) : (l.put t).realFor s = some t := by
  apply realFor_of_real hb _ hp
  rw [getElem?_objects_put_of_mem ha same, if_pos rfl]

/-- A real account that is found for a job is found as long as the ledger only grows. -/
theorem GrowsTo.found {l' : Ledger} {userid : UserId} {bank : Option String} (h : l.GrowsTo l')
    (hf : l.lookup userid bank = .found a) :
    ∃ a', l'.lookup userid bank = .found a' ∧ a.UsedAs a' := by
  obtain ⟨name, hname, ha⟩ := exists_of_lookup (.inl hf)
  obtain ⟨_, ha', usage, rfl⟩ := h.stays _ a ha
  have found : ({ a with usage } : Account).isPlaceholder = a.isPlaceholder := rfl
  refine ⟨{ a with usage }, ?_, usage, rfl⟩
  rw [lookup_of_some ?_ ha', found, isPlaceholder_of_found hf, if_neg Bool.false_ne_true]
  -- the bank is the one that the job names, or the default
  cases bank with
  | some named => exact hname
  | none => exact h.defaults userid name hname

end Ledger

namespace Engine

variable {H : Type} {e : Engine H} {topic : Topic} {args : Json} {job : Job} {s : JobStorage}
  {step : Step Reply H} {a : Account}

/-- The factor that a call takes over, if it looks at the queue of its job, finds the job a real
account and is carried out: the one that the queue has by the table and by what the account
permits. -/
def settledBy (e : Engine H) (topic : Topic) (job : Job) (s : JobStorage) (step : Step Reply H) :
    Option Int64 :=
  if topic.looksAtQueue s step.storage && HandlerError.carriedOut step.outcome then
    (step.engine.ledger.realFor step.storage).bind fun a => e.queueFactor? a job.queue
  else none

theorem settledBy_of_blind (h : topic.looksAtQueue s step.storage = false) :
    e.settledBy topic job s step = none := by
  simp [settledBy, h]

theorem settledBy_of_failed (h : HandlerError.carriedOut step.outcome = false) :
    e.settledBy topic job s step = none := by
  simp [settledBy, h]

theorem settledBy_of_unreal (h : step.engine.ledger.realFor step.storage = none) :
    e.settledBy topic job s step = none := by
  simp [settledBy, h]

theorem settledBy_of_real (looks : topic.looksAtQueue s step.storage = true)
    (done : HandlerError.carriedOut step.outcome = true)
    (h : step.engine.ledger.realFor step.storage = some a) :
    e.settledBy topic job s step = e.queueFactor? a job.queue := by
  simp [settledBy, looks, done, h]

variable [Scheduler H]

theorem carriedOut_patchAnswer {α : Type} (x : α) (f : α → Reply) (err : Option HostError) :
    HandlerError.carriedOut ((patchAnswer x err).map f) = true := by
  cases err <;> rfl

omit [Scheduler H] in
/-- A call that does not look at the queue keeps the factor. -/
theorem queueFactor_of_blind (h : topic.looksAtQueue s step.storage = false)
    (same : step.storage.queueFactor = s.queueFactor) :
    step.storage.queueFactor = (e.settledBy topic job s step).getD s.queueFactor := by
  rw [settledBy_of_blind h]
  exact same

/-- The announcement of a job takes the factor of its queue over, if the account is real. -/
theorem queueFactor_new (hs : s.binding = none) :
    (e.stepOf .new args job s).storage.queueFactor =
      (e.settledBy .new job s (e.stepOf .new args job s)).getD s.queueFactor := by
  have queues := (e.growsTo_startBinding job s).queues
  have zero : s.queueFactor = 0 := by
    rw [JobStorage.queueFactor, hs]
    rfl
  obtain ⟨k₀, binding, -⟩ := e.startBinding_unbound job hs
  obtain ⟨rs, effect⟩ := e.newJob_effect job s
  rw [binding] at effect
  rw [stepOf, zero]
  generalize e.newJob job s = step at effect ⊢
  obtain ⟨outcome, ⟨config, ledger, host, audit⟩, s'⟩ := step
  dsimp only at effect
  cases effect with
  | rejected =>
    rw [settledBy_of_unreal (Ledger.realFor_of_unbound hs)]
    exact zero
  | detached =>
    rw [settledBy_of_unreal (Ledger.realFor_of_unbound rfl)]
    rfl
  | placed ha hp =>
    rw [settledBy_of_unreal (Ledger.realFor_of_placeholder rfl ha hp)]
    rfl
  | @enrolled a factor _ err _ ha hp _ hq =>
    have real : (a.countActive.withQueueFactor factor).isPlaceholder = false := hp
    have found : e.queueFactor? (a.countActive.withQueueFactor factor) job.queue = some factor := by
      rw [queueFactor?, ← queues]
      exact hq
    rw [settledBy_of_real rfl (carriedOut_patchAnswer () _ err)
      (Ledger.realFor_put (t := a.countActive.withQueueFactor factor)
        (b := { account := k₀, queueFactor := factor, countedActive := true }) rfl ha rfl real),
      found]
    rfl

/-- A job that asks for its priority takes the factor of its queue over, if it is moved. -/
theorem queueFactor_priority
    (ht : topic = .priority ∨ topic = .priorityGet) :
    (e.stepOf topic args job s).storage.queueFactor =
      (e.settledBy topic job s (e.stepOf topic args job s)).getD s.queueFactor := by
  have asked : e.stepOf topic args job s = (e.priority job s).map .ofPriority := by
    rcases ht with rfl | rfl
    · rfl
    · rfl
  have looks : ∀ s', topic.looksAtQueue s s' =
      decide (s.binding.map (·.account) ≠ s'.binding.map (·.account)) := by
    rcases ht with rfl | rfl
    · exact fun _ => rfl
    · exact fun _ => rfl
  obtain ⟨rs, effect⟩ := e.priority_effect job s
  rw [asked]
  generalize e.priority job s = step at effect ⊢
  obtain ⟨outcome, ⟨config, ledger, host, audit⟩, s'⟩ := step
  dsimp only at effect
  have stays : topic.looksAtQueue s s = false := by
    rw [looks]
    simp
  cases effect with
  | unbound | prioritized | stayed | refused => exact queueFactor_of_blind stays rfl
  | @rebound b p real a' decision factor err _ _ _ hb hp hf hg hq =>
    obtain ⟨gate, rfl⟩ := Account.eq_withGate_of_enterGate hg
    have moved := ne_of_found hb hp hf
    obtain ⟨hb, -⟩ := boundAccount_eq_some.mp hb
    have found := Ledger.isPlaceholder_of_found hf
    have there := Ledger.object_of_account? (Ledger.account?_of_lookup (.inl hf)).1
    have own : ((real.withGate gate).countActive.withQueueFactor factor).handle = real.handle := rfl
    have found' : ((real.withGate gate).countActive.withQueueFactor factor).isPlaceholder = false :=
      found
    have settled : e.queueFactor? ((real.withGate gate).countActive.withQueueFactor factor)
        job.queue = some factor := hq
    generalize (real.withGate gate).countActive.withQueueFactor factor = a at *
    have binding := reboundStorage_binding s (rebound b a factor decision) decision
    have looked : topic.looksAtQueue s
        (reboundStorage s (rebound b a factor decision) decision) = true := by
      rw [looks, binding, hb]
      simpa [own] using moved
    rw [settledBy_of_real looked (carriedOut_patchAnswer _ _ err)
      (Ledger.realFor_put binding (rebound_account b a factor decision ▸ own ▸ there) own found'),
      settled]
    show (reboundStorage s (rebound b a factor decision) decision).queueFactor = factor
    rw [JobStorage.queueFactor, binding]
    cases decision <;> rfl

/-- A job whose queue changed takes its factor over, if the account is real and permits it. -/
theorem queueFactor_queueUpdated :
    (e.stepOf .queueUpdated args job s).storage.queueFactor =
      (e.settledBy .queueUpdated job s (e.stepOf .queueUpdated args job s)).getD
        s.queueFactor := by
  rw [stepOf]
  obtain ⟨b, a, factor, hb, hp, hq, step⟩ | ⟨b, a, hb, hp, step⟩ | ⟨f, hf, step⟩ :=
    e.queueUpdated_cases job s
  · obtain ⟨hb, ha⟩ := boundAccount_eq_some.mp hb
    have settled : e.queueFactor? (a.withQueueFactor factor) job.queue = some factor := hq
    have real : (a.withQueueFactor factor).isPlaceholder = false := hp
    rw [step, settledBy_of_real rfl rfl
      (Ledger.realFor_put (t := a.withQueueFactor factor) (b := { b with queueFactor := factor })
        rfl ha rfl real), settled]
    rfl
  · obtain ⟨hb, ha⟩ := boundAccount_eq_some.mp hb
    rw [step, settledBy_of_unreal (Ledger.realFor_of_placeholder hb ha hp)]
    rfl
  · rw [step, settledBy_of_failed]
    · rfl
    · rcases hf with rfl | rfl
      · rfl
      · rfl

/-- A call on a job that is announced or live leaves it with the factor that it takes over, or
with the one that the job had. -/
theorem queueFactor_stepOf (hnew : topic = .new → s.binding = none)
    (hinactive : topic ≠ .inactive) :
    (e.stepOf topic args job s).storage.queueFactor =
      (e.settledBy topic job s (e.stepOf topic args job s)).getD s.queueFactor := by
  cases topic with
  | validate =>
    refine queueFactor_of_blind rfl ?_
    show (e.validate job s).storage.queueFactor = s.queueFactor
    rw [e.validate_storage job s]
  | new => exact queueFactor_new (hnew rfl)
  | depend =>
    refine queueFactor_of_blind rfl ?_
    obtain ⟨rs, effect⟩ := e.depend_effect job s
    show (e.depend job s).storage.queueFactor = s.queueFactor
    generalize (e.depend job s).storage = s' at effect ⊢
    generalize (e.depend job s).outcome = outcome at effect
    generalize (e.depend job s).engine.ledger = l' at effect
    generalize (e.depend job s).engine.host = h' at effect
    cases effect with
    | unbound | held | refused => rfl
    | waved hb | admitted hb =>
      rw [JobStorage.queueFactor, JobStorage.queueFactor, (boundAccount_eq_some.mp hb).1]
      rfl
  | priority => exact queueFactor_priority (.inl rfl)
  | priorityGet => exact queueFactor_priority (.inr rfl)
  | run =>
    refine queueFactor_of_blind rfl ?_
    have effect := e.run_effect job s
    show (e.run job s).storage.queueFactor = s.queueFactor
    generalize (e.run job s).storage = s' at effect ⊢
    generalize (e.run job s).engine.ledger = l' at effect
    cases effect with
    | unbound => rfl
    | started hb =>
      rw [JobStorage.queueFactor, JobStorage.queueFactor, (boundAccount_eq_some.mp hb).1]
      rfl
  | inactive => exact absurd rfl hinactive
  | updateQueue =>
    refine queueFactor_of_blind rfl ?_
    exact congrArg JobStorage.queueFactor
      (e.updateQueue_effect job s (proposedQueue args)).2.2
  | queueUpdated => exact queueFactor_queueUpdated

/-! ### What a job would be given -/

omit [Scheduler H] in
/-- The priority that a job is given if the scheduler refuses nothing. -/
def offer (e : Engine H) (job : Job) (s : JobStorage) : Option Int :=
  (e.boundAccount s).bind fun (b, a) =>
    if a.isPlaceholder then
      match e.ledger.lookup job.userid job.bank with
      | .found real => (e.queueFactor? real job.queue).map fun factor =>
          Priority.compute real.terms.fairshare factor job.urgency
      | .placeholder _ | .notFound => none
    else some (Priority.compute a.terms.fairshare b.queueFactor job.urgency)

variable {rs : List HostRequest} {h' : H} {l' : Ledger} {s' : JobStorage} {value : Int}

/-- Only what a job would be given is given. -/
theorem PriorityEffect.offer_of_value
    (effect : PriorityEffect e job s (.ok (.value value)) rs h' l' s') :
    e.offer job s = some value := by
  generalize ho : Except.ok (PriorityOutcome.value value) = outcome at effect
  cases effect with
  | unbound | refused => cases ho
  | stayed _ _ why => exact absurd ho.symm (why.ne_value value)
  | prioritized hb real =>
    cases ho
    simp [offer, hb, real]
  | @rebound b _ real a' decision factor err _ _ _ hb hp hf hg hq =>
    obtain ⟨gate, rfl⟩ := Account.eq_withGate_of_enterGate hg
    cases err with
    | some err => cases ho
    | none =>
      cases ho
      simp only [offer, hb, Option.bind_some, hp, if_true, hf, hq, Option.map_some]
      rfl

/-- What a job would be given it is given, unless the scheduler refuses to hold the job or to
change its specification. -/
theorem PriorityEffect.of_offer {outcome : Except HandlerError PriorityOutcome}
    (effect : PriorityEffect e job s outcome rs h' l' s') (hv : e.offer job s = some value) :
    outcome = .ok (.value value) ∨ ∃ err, outcome = .error (.fault (.dependencyAdd err)) ∨
      outcome = .error (.fault (.jobspecUpdate err)) := by
  cases effect with
  | unbound hb => simp [offer, hb] at hv
  | prioritized hb real =>
    simp only [offer, hb, Option.bind_some, real] at hv
    cases hv
    exact .inl rfl
  | stayed hb hp why =>
    cases why with
    | waiting hl => simp [offer, hb, hp, hl] at hv
    | early hl => simp [offer, hb, hp, hl] at hv
    | unresolvable hl => simp [offer, hb, hp, hl] at hv
    | invalidQueue hf hq => simp [offer, hb, hp, hf, hq] at hv
  | @refused _ _ _ _ err => exact .inr ⟨err, .inl rfl⟩
  | @rebound b _ real a' decision factor err _ _ _ hb hp hf hg hq =>
    obtain ⟨gate, rfl⟩ := Account.eq_withGate_of_enterGate hg
    simp only [offer, hb, Option.bind_some, hp, if_true, hf, hq, Option.map_some,
      Option.some.injEq] at hv
    subst hv
    cases err with
    | none => exact .inl rfl
    | some err => exact .inr ⟨err, .inr rfl⟩

omit [Scheduler H] in
/-- A ledger that only grows offers a job what it offered before. -/
theorem offer_of_growsTo {e' : Engine H} (grows : e.ledger.GrowsTo e'.ledger)
    (hv : e.offer job s = some value) : e'.offer job s = some value := by
  obtain ⟨⟨b, a⟩, hb, hv⟩ := Option.bind_eq_some_iff.mp hv
  obtain ⟨hb, ha⟩ := boundAccount_eq_some.mp hb
  obtain ⟨a', ha', usage, rfl⟩ := grows.objects _ a ha
  have found : e'.boundAccount s = some (b, { a with usage }) :=
    boundAccount_eq_some.mpr ⟨hb, ha'⟩
  have kind : ({ a with usage } : Account).isPlaceholder = a.isPlaceholder := rfl
  rw [offer, found, Option.bind_some]
  simp only [kind] at hv ⊢
  split at hv
  · rename_i hp
    rw [if_pos hp]
    cases hl : e.ledger.lookup job.userid job.bank with
    | placeholder | notFound => simp [hl] at hv
    | found real =>
      rw [hl] at hv
      obtain ⟨real', hl', usage', rfl⟩ := grows.found hl
      rw [hl']
      have queues : e'.queueFactor? { real with usage := usage' } job.queue =
          e.queueFactor? real job.queue := by
        rw [queueFactor?, queueFactor?, grows.queues]
      simp only at hv ⊢
      rw [queues]
      exact hv
  · rename_i hp
    rw [if_neg hp]
    exact hv

end Engine

/-! ### Along a run -/

namespace World

variable {H : Type} [Scheduler H] {w : World H} {ev : Event H} {es : List (Event H)} {j : JobId}
  {k : AccountKey} {topic : Topic} {args : Json} {job : Job} {l : LiveJob} {a : Account}

/-- The factor of its queue that an event has a job take over. -/
def settledIn (j : JobId) (w : World H) : Event H → List Int64
  | .call topic args job =>
    if job.id = j then
      (w.engine.settledBy topic job (w.storage j) (w.step topic args job)).toList
    else []
  | _ => []

/-- The factor of its queue that a job took over last, in the course of events; 0 if there was
none. -/
def settledFactor (j : JobId) (w : World H) (es : List (Event H)) : Int64 :=
  (Run.history after (settledIn j) w es).getLastD 0

theorem settledIn_of_ne (h : ev.job? ≠ some j) : settledIn j w ev = [] := by
  cases ev with
  | feed | reprioritize | scheduler => rfl
  | call topic args job => exact if_neg fun same => h (congrArg some same)

/-- What is kept of the queue of a job that can still be called on is what the job took over. -/
def KeepsFactor (j : JobId) (w : World H) (told : List Int64) : Prop :=
  (j ∈ w.arrived → ∃ l, w.live j = some l) → (w.storage j).queueFactor = told.getLastD 0

theorem getLastD_append_toList {α : Type} (xs : List α) (x : Option α) (d : α) :
    (xs ++ x.toList).getLastD d = x.getD (xs.getLastD d) := by
  cases x with
  | none => simp
  | some x => simp

/-- A job that was announced and can be called on after a call could be called on before. -/
theorem live_before_call (h : w.HostOrder (.call topic args job)) (hj : job.id ∈ w.arrived)
    (live : ∃ l, (w.after (.call topic args job)).live job.id = some l) :
    ∃ l, w.live job.id = some l := by
  cases topic with
  | validate =>
    rw [after_validate_live, Function.update_self] at live
    exact live
  | new => exact absurd hj h
  | depend | priority | priorityGet | run | inactive | updateQueue | queueUpdated =>
    obtain ⟨l, hl, -⟩ := h
    exact ⟨l, hl⟩

/-- Each event keeps this. -/
theorem keepsFactor_after {told : List Int64} (hs : w.Sound) (h : w.HostOrder ev)
    (kept : w.KeepsFactor j told) : (w.after ev).KeepsFactor j (told ++ settledIn j w ev) := by
  intro live
  by_cases hj : ev.job? = some j
  · cases ev with
    | feed | reprioritize | scheduler => cases hj
    | call topic args job =>
      obtain rfl : job.id = j := Option.some.inj hj
      have told_now : settledIn job.id w (.call topic args job) =
          (w.engine.settledBy topic job (w.storage job.id) (w.step topic args job)).toList :=
        if_pos rfl
      rw [told_now, getLastD_append_toList]
      by_cases hinactive : topic = .inactive
      · -- a job that left is not called on again
        subst hinactive
        obtain ⟨l, hl, -⟩ := h
        obtain ⟨l', hl'⟩ := live (arrived_subset_after (hs.known job.id l hl))
        rw [after_inactive_live, Function.update_self] at hl'
        cases hl'
      · have before : (w.storage job.id).queueFactor = told.getLastD 0 := by
          apply kept
          intro arrived
          exact live_before_call h arrived (live (arrived_subset_after arrived))
        have hnew : topic = .new → (w.storage job.id).binding = none := by
          rintro rfl
          rw [storage, hs.not_live h]
          rfl
        rw [hs.storage_after_call h hinactive, ← before]
        exact Engine.queueFactor_stepOf hnew hinactive
  · have same : (w.after ev).storage j = w.storage j := by
      rw [storage, storage, live_after_of_ne hj]
    rw [same, settledIn_of_ne hj, List.append_nil]
    apply kept
    intro arrived
    rw [← live_after_of_ne hj]
    exact live (arrived_subset_after arrived)

omit [Scheduler H] in
theorem live_of_bound {b : JobBinding} (hb : (w.storage j).binding = some b) :
    ∃ l, w.live j = some l := by
  cases hl : w.live j with
  | none =>
    rw [storage, hl] at hb
    cases hb
  | some l => exact ⟨l, rfl⟩

/-- In a run, what is kept of the queue of a job that is bound is what the job took over last. -/
theorem Obeys.queueFactor {b : JobBinding} (config : Config) (host : H) (audit : Option AuditTrail)
    (h : (start config host audit).Obeys HostOrder es)
    (hb : (((start config host audit).afterAll es).storage j).binding = some b) :
    b.queueFactor = settledFactor j (start config host audit) es := by
  have start_keeps : (start config host audit).Sound ∧
      (start config host audit).KeepsFactor j [] :=
    ⟨start_sound config host audit, fun _ => rfl⟩
  have both : ((start config host audit).afterAll es).Sound ∧
      ((start config host audit).afterAll es).KeepsFactor j
        (Run.history World.after (settledIn j) (start config host audit) es) :=
    h.invariant_history (I := fun w told => w.Sound ∧ w.KeepsFactor j told) (f := settledIn j)
      (fun w ev told kept hev => ⟨kept.1.after hev, keepsFactor_after kept.1 hev kept.2⟩)
      start_keeps
  have kept := both.2 fun _ => live_of_bound hb
  rw [JobStorage.queueFactor, hb] at kept
  exact kept

/-! ### Terms -/

/-- An account that the feed tells of has the terms that it grants. -/
theorem Account.told_terms (k : AccountKey) (a : Option Account) (terms : Terms) :
    (Account.told k a terms).terms = terms := by
  cases a with
  | none => rfl
  | some a => rfl

/-- A real account has the terms that the feed granted last. -/
theorem terms_of_real (config : Config) (host : H) (audit : Option AuditTrail)
    (ha : ((start config host audit).afterAll es).account k = some a)
    (real : a.isPlaceholder = false) : (es.flatMap (Event.granted k)).getLast? = some a.terms := by
  induction es using List.reverseRecOn generalizing a with
  | nil => cases (account_start config host audit k).symm.trans ha
  | append_singleton es ev ih =>
    rw [afterAll_append] at ha
    change (((start config host audit).afterAll es).after ev).account k = some a at ha
    rw [List.flatMap_append, List.getLast?_append, List.flatMap_singleton]
    cases hfeed : ev.isFeed with
    | false =>
      obtain ⟨a₀, ha₀, usage, rfl⟩ := (growsTo_after _ hfeed).real ha real
      have nothing : ev.granted k = [] := by
        cases ev with
        | feed => cases hfeed
        | reprioritize | scheduler | call => rfl
      rw [nothing, ih ha₀ real]
      rfl
    | true =>
      cases ev with
      | reprioritize | scheduler | call => cases hfeed
      | feed kind rows =>
        rw [account_after_feed] at ha
        cases hlast : ((.feed kind rows : Event H).granted k).getLast? with
        | none =>
          rw [hlast] at ha
          rw [ih ha real]
          rfl
        | some terms =>
          rw [hlast] at ha
          cases ha
          rw [Account.told_terms]
          rfl

/-! ### What a job is given -/

/-- Calls on other jobs, and whatever else happens but what the feed tells, leave alone what a job
would be given. -/
theorem offer_afterAll {value : Int}
    (others : ∀ ev ∈ es, ev.isFeed = false ∧ ev.job? ≠ some job.id)
    (hv : w.engine.offer job (w.storage job.id) = some value) :
    (w.afterAll es).engine.offer job ((w.afterAll es).storage job.id) = some value := by
  induction es generalizing w with
  | nil => exact hv
  | cons ev es ih =>
    obtain ⟨hfeed, hj⟩ := others ev (by simp)
    have same : (w.after ev).storage job.id = w.storage job.id := by
      rw [storage, storage, live_after_of_ne hj]
    apply ih fun ev hev => others ev (List.mem_cons_of_mem _ hev)
    rw [same]
    exact Engine.offer_of_growsTo (w.growsTo_after hfeed) hv

/-- A demand for a priority is answered by the step for it. -/
theorem outcome_of_priority (ht : topic = .priority ∨ topic = .priorityGet) :
    (w.step topic args job).outcome =
      (w.engine.priority job (w.storage job.id)).outcome.map .ofPriority := by
  rcases ht with rfl | rfl
  · rfl
  · rfl

omit [Scheduler H] in
/-- Only a live job asks for its priority. -/
theorem live_of_priority (ht : topic = .priority ∨ topic = .priorityGet)
    (h : w.HostOrder (.call topic args job)) : ∃ l, w.live job.id = some l := by
  rcases ht with rfl | rfl
  · obtain ⟨l, hl, -⟩ := h
    exact ⟨l, hl⟩
  · obtain ⟨l, hl, -⟩ := h
    exact ⟨l, hl⟩

/-- The host refuses to hold a job, or to change its specification. -/
def HostRefused (outcome : Except HandlerError Reply) : Prop :=
  ∃ err, outcome = .error (.fault (.dependencyAdd err)) ∨
    outcome = .error (.fault (.jobspecUpdate err))

/-- Whenever a job is given a priority in a run, the priority is that of the fairshare which the
feed last told for the account of the job, and of the factor which the queue of the job had when a
call on this job last took it over. Any number of calls on other jobs before leave the answer as it
is, but that the scheduler may refuse what it is asked then. -/
theorem priority_of_history (config : Config) (host : H) (audit : Option AuditTrail)
    {value : Int64}
    (h : (start config host audit).Obeys HostOrder (es ++ [.call topic args job]))
    (hv : (((start config host audit).afterAll es).step topic args job).outcome =
      .ok (.priority value)) :
    (∃ k terms,
      ((start config host audit).afterAll (es ++ [.call topic args job])).accountOf job.id =
          some k ∧
        (es.flatMap (Event.granted k)).getLast? = some terms ∧
        value.toInt = Priority.compute terms.fairshare
          (settledFactor job.id (start config host audit) (es ++ [.call topic args job]))
          job.urgency) ∧
      ∀ others : List (Event H),
        (∀ ev ∈ others, ev.isFeed = false ∧ ev.job? ≠ some job.id) →
        let outcome :=
          (((start config host audit).afterAll (es ++ others)).step topic args job).outcome
        outcome = .ok (.priority value) ∨ HostRefused outcome := by
  obtain ⟨ht, v, hvalue⟩ := priority_of_value hv
  obtain ⟨rs, effect⟩ := ((start config host audit).afterAll es).engine.priority_effect job
    (((start config host audit).afterAll es).storage job.id)
  rw [hvalue] at effect
  have given : value = Int64.ofInt v := by
    rw [outcome_of_priority ht, hvalue] at hv
    cases hv
    rfl
  constructor
  · obtain ⟨b, a, hb, ha, real, hcompute⟩ := effect.of_value
    obtain ⟨l, hl⟩ := live_of_priority ht (obeys_append.mp h).2.1
    rw [storage_of_live hl] at hb ha
    obtain ⟨storage, ledger⟩ := after_priority args ht hl
    have later : (start config host audit).afterAll (es ++ [.call topic args job]) =
        ((start config host audit).afterAll es).after (.call topic args job) := afterAll_append ..
    rw [← later] at storage ledger
    rw [← storage] at hb
    rw [← ledger] at ha
    have keyed := (h.sound (start_sound config host audit)).keyed
    have terms := terms_of_real config host audit (keyed.kept ha) real
    have factor := h.queueFactor config host audit hb
    refine ⟨b.account.key, a.terms, ?_, ?_, ?_⟩
    · rw [accountOf, hb]
      rfl
    · rw [List.flatMap_append] at terms
      simpa [Event.granted] using terms
    · rw [given, hcompute, Priority.toInt_compute, factor]
  · intro others hothers
    have offered := offer_afterAll hothers effect.offer_of_value
    rw [← afterAll_append] at offered
    obtain ⟨rs', effect'⟩ :=
      ((start config host audit).afterAll (es ++ others)).engine.priority_effect job
        (((start config host audit).afterAll (es ++ others)).storage job.id)
    show _ ∨ HostRefused _
    rw [outcome_of_priority ht]
    rcases effect'.of_offer offered with ho | ⟨err, ho | ho⟩
    · rw [ho, given]
      exact .inl rfl
    · rw [ho]
      exact .inr ⟨err, .inl rfl⟩
    · rw [ho]
      exact .inr ⟨err, .inr rfl⟩

namespace Sample

/-- The record of the account, which permits two queues. -/
def queuedRecord : Json :=
  .ofEntries
    [("userid", .ofUInt32 key.userid), ("bank", .string key.bank),
     ("default_bank", .string key.bank), ("fairshare", .ofFloat (.ofRatio false 1 2)),
     ("max_running_jobs", .ofInt64 5), ("max_active_jobs", .ofInt64 0),
     ("queues", .string "day,night"), ("active", .ofInt64 1)]

/-- The record of a queue. -/
def queueRecord (name : String) (factor : Int64) : Json :=
  .ofEntries [("queue", .string name), ("priority", .ofInt64 factor)]

/-- A job in a queue. -/
def queuedJob (id : JobId) (name : String) : Job := { Sample.job id with queue := some name }

/-- A job comes in one queue, and then another job of the account in another one. -/
def queued : List (Event Host) :=
  [.feed .queues [queueRecord "day" 5, queueRecord "night" 2], .feed .accounts [queuedRecord],
   .call .new .null (queuedJob 7 "day"), .call .depend .null (queuedJob 7 "day"),
   .call .new .null (queuedJob 8 "night")]

end Sample

/-- The job is given the priority of its own queue, though the account knows the other one last. -/
theorem sample_priority_of_history : ∃ k terms,
    (Sample.start.afterAll (Sample.queued ++
        [.call .priority .null (Sample.queuedJob 7 "day")])).accountOf 7 = some k ∧
      (Sample.queued.flatMap (Event.granted k)).getLast? = some terms ∧
      (100000 : Int64).toInt = Priority.compute terms.fairshare
        (settledFactor 7 Sample.start
          (Sample.queued ++ [.call .priority .null (Sample.queuedJob 7 "day")])) 16 := by
  have obeys : Sample.start.Obeys HostOrder
      (Sample.queued ++ [.call .priority .null (Sample.queuedJob 7 "day")]) := by
    decide +kernel
  have answer : ((Sample.start.afterAll Sample.queued).step .priority .null
      (Sample.queuedJob 7 "day")).outcome = .ok (.priority 100000) := by
    decide +kernel
  exact (priority_of_history Config.default ({} : Host) none obeys answer).1

end World

end JobAdmission

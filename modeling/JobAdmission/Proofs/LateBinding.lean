import JobAdmission.Proofs.Binding

/-!
# Late binding is early binding

A job whose user is not known yet is bound to a placeholder, passes its throttle, and is
moved to its real account when it asks for its priority. Had the account been known from the
start, the job would have been bound to it when it was announced, and would have passed the
throttle there. This module proves that both ways end alike (`World.late_eq_early`):
the moving step does in one go, and in another order, what the announcement, the throttle and
the request for a priority do one after the other. The reason is that counting a job does not
touch the gate that decides on it (`Account.enterGate_counted`), and that an account which is
put back twice is put back once (`Ledger.put_put`). Only the default project makes a
difference: the moving step does not write it.
-/

namespace JobAdmission

/-! ### Parts that commute -/

/-- The gate decides on a job alike before and after a job is counted. -/
theorem Account.enterGate_counted {a a' : Account} {j : JobId} {decision : Gate.Decision}
    (h : a.enterGate j = (decision, a')) (factor : Int64) :
    (a.countActive.withQueueFactor factor).enterGate j =
      (decision, a'.countActive.withQueueFactor factor) := by
  cases h
  rfl

/-- Where one account is put back twice, it stays as it is the second time. -/
theorem Ledger.put_put (l : Ledger) {a a' : Account} (same : a'.handle = a.handle) :
    (l.put a).put a' = l.put a' := by
  refine eq_of_objects (fun h => ?_) (fun _ => rfl) rfl rfl rfl
  rw [getElem?_objects_put, getElem?_objects_put, getElem?_objects_put, same]
  split
  · rw [Option.map_map]
    rfl
  · rfl

/-! ### Hosts that refuse nothing -/

namespace Host

variable {h : Host} {rs : List HostRequest}

/-- The host refuses no kind of requests. -/
def Calm (h : Host) : Prop := ∀ op, h.armed op = false

/-- The host after it accepted some requests. -/
def acceptAll (h : Host) (rs : List HostRequest) : Host := rs.foldl accept h

/-- All that a host objects to of its own are removals of dependencies. -/
theorem objection_eq_none {r : HostRequest} (hr : r.removed? = none) : h.objection r = none := by
  cases r with
  | removeDependency => cases hr
  | updateJobspec | addDependency | reprioritizeAll => rfl

/-- A host that refuses nothing accepts everything but the removal of a dependency that is
not there. -/
theorem Calm.serve (hc : h.Calm) (hrs : ∀ r ∈ rs, r.removed? = none) :
    Scheduler.serve h rs = (none, h.acceptAll rs) := by
  induction rs generalizing h with
  | nil => rfl
  | cons r rs ih =>
    have unobjected : h.objection r = none := objection_eq_none (hrs r List.mem_cons_self)
    have request : Scheduler.request h r = (none, h.accept r) := by
      simp [Scheduler.request, Host.request, hc r.op, unobjected]
    rw [Scheduler.serve, request]
    exact ih (h := h.accept r) hc fun r hr => hrs r (List.mem_cons_of_mem _ hr)

theorem log_acceptAll (h : Host) (rs : List HostRequest) :
    (h.acceptAll rs).log = h.log ++ rs := by
  induction rs generalizing h with
  | nil => exact (List.append_nil _).symm
  | cons r rs ih =>
    have log : (h.accept r).log = h.log ++ [r] := rfl
    show ((h.accept r).acceptAll rs).log = h.log ++ r :: rs
    rw [ih, log, List.append_assoc, List.singleton_append]

/-- Changes of a specification do not touch the dependencies. -/
theorem dependencies_acceptAll_patches (h : Host) (job : Job) (ps : List JobspecPatch) :
    (h.acceptAll (Engine.patchRequests job ps)).dependencies = h.dependencies := by
  induction ps generalizing h with
  | nil => rfl
  | cons p ps ih => exact ih (h.accept (.updateJobspec job.id p))

theorem Calm.acceptAll (hc : h.Calm) (rs : List HostRequest) : (h.acceptAll rs).Calm := by
  induction rs generalizing h with
  | nil => exact hc
  | cons r rs ih => exact ih (h := h.accept r) hc

end Host

/-! ### Steps at a known account -/

namespace Engine

variable {H : Type} [Scheduler H] {e : Engine H} {job : Job} {s s' : JobStorage}
  {host h h₁ h' : H} {l l' : Ledger} {rs : List HostRequest} {b : JobBinding}
  {a a' real : Account} {factor : Int64} {decision : Gate.Decision}

/-- A real account that is in use, permits the queue and has room takes a new job. Only the
scheduler can make the announcement fail. -/
theorem NewJobEffect.of_room {byDefault : Bool} {outcome : Except HandlerError Unit}
    {err : Option HostError}
    (effect : NewJobEffect h job l b byDefault s outcome rs h' l' s')
    (ha : l.objects[b.account]? = some a) (hp : a.isPlaceholder = false)
    (hd : a.terms.runLimit ≠ .detached) (room : a.atActiveLimit = false)
    (hq : (QueueTable.resolve l.queues a.terms.queues job.queue).factor = some factor)
    (hb : b.countedActive = false)
    (hserve : Scheduler.serve h (patchRequests job (givenPatches job a byDefault)) =
      (err, host)) :
    outcome = patchAnswer () err ∧ h' = host ∧ l' = l.put (a.countActive.withQueueFactor factor) ∧
      s' = { s with binding := some { b with countedActive := true, queueFactor := factor } } := by
  cases effect with
  | rejected away =>
    obtain ⟨-, hqueue | ⟨-, full⟩⟩ := away a ha
    · simp [hq] at hqueue
    · simp [room] at full
  | placed ha' hp' =>
    cases ha.symm.trans ha'
    simp [hp] at hp'
  | detached ha' _ hd' =>
    cases ha.symm.trans ha'
    exact absurd hd' hd
  | enrolled ha' _ _ hq' hps hpatch =>
    cases ha.symm.trans ha'
    cases hq.symm.trans hq'
    subst hps
    cases hserve.symm.trans hpatch
    simp [hb]

/-- What is kept for a job after its gate decided. -/
def throttledStorage (s : JobStorage) (b : JobBinding) : Gate.Decision → JobStorage
  | .proceed r => { s with binding := some { b with runReserved := r } }
  | .hold => { s with dependencies := s.dependencies ++ [heldLabel] }

/-- A job stays bound to its account whatever its gate decides. -/
theorem exists_binding_throttledStorage (hs : s.binding = some b) (decision : Gate.Decision) :
    ∃ r, (throttledStorage s b decision).binding = some { b with runReserved := r } := by
  cases decision with
  | proceed r => exact ⟨r, rfl⟩
  | hold => exact ⟨b.runReserved, hs⟩

/-- What the throttle answers for a decision of the gate. -/
def throttleAnswer : Gate.Decision → DependOutcome
  | .proceed _ => .proceed
  | .hold => .held

/-- At a real account, the throttle does what the gate decides, if the scheduler does. -/
theorem DependEffect.of_real {outcome : Except HandlerError DependOutcome}
    (effect : DependEffect e job s outcome rs h' l' s') (hb : e.boundAccount s = some (b, a))
    (hp : a.isPlaceholder = false) (hg : a.enterGate job.id = (decision, a'))
    (hserve : Scheduler.serve e.host (holdRequests job decision) = (none, host)) :
    outcome = .ok (throttleAnswer decision) ∧ h' = host ∧ l' = e.ledger.put a' ∧
      s' = throttledStorage s b decision := by
  cases effect with
  | unbound hb' => simp [hb] at hb'
  | waved hb' hp' =>
    cases hb.symm.trans hb'
    simp [hp] at hp'
  | admitted hb' _ hg' =>
    cases hb.symm.trans hb'
    cases hg.symm.trans hg'
    cases hserve
    exact ⟨rfl, rfl, rfl, rfl⟩
  | held hb' _ hg' hreq =>
    cases hb.symm.trans hb'
    cases hg.symm.trans hg'
    simp only [holdRequests, Scheduler.serve, hreq] at hserve
    cases hserve
    exact ⟨rfl, rfl, rfl, rfl⟩
  | refused hb' _ hg' hreq =>
    cases hb.symm.trans hb'
    cases hg.symm.trans hg'
    simp only [holdRequests, Scheduler.serve, hreq] at hserve
    cases hserve

/-- At a real account, a job is given its priority, and nothing changes. -/
theorem PriorityEffect.of_real {outcome : Except HandlerError PriorityOutcome}
    (effect : PriorityEffect e job s outcome rs h' l' s') (hb : e.boundAccount s = some (b, a))
    (hp : a.isPlaceholder = false) :
    outcome = .ok (.value (Priority.compute a.terms.fairshare b.queueFactor job.urgency)) ∧
      h' = e.host ∧ l' = e.ledger ∧ s' = s := by
  cases effect with
  | unbound hb' => simp [hb] at hb'
  | prioritized hb' _ =>
    cases hb.symm.trans hb'
    exact ⟨rfl, rfl, rfl, rfl⟩
  | stayed hb' hp' | refused hb' hp' | rebound hb' hp' =>
    cases hb.symm.trans hb'
    simp [hp] at hp'

/-- A job of a placeholder whose real account is known and permits its queue is moved there,
if the scheduler does what the gate decides and writes the bank. -/
theorem PriorityEffect.of_found {outcome : Except HandlerError PriorityOutcome}
    (effect : PriorityEffect e job s outcome rs h' l' s') (hb : e.boundAccount s = some (b, a))
    (hp : a.isPlaceholder = true) (hf : e.ledger.lookup job.userid job.bank = .found real)
    (hq : e.queueFactor? real job.queue = some factor)
    (hg : real.enterGate job.id = (decision, a'))
    (hhold : Scheduler.serve e.host (holdRequests job decision) = (none, h₁))
    (hpatch : Scheduler.serve h₁ (patchRequests job (bankPatches job a'.key.bank)) =
      (none, host)) :
    outcome = .ok (.value (Priority.compute a'.terms.fairshare factor job.urgency)) ∧ h' = host ∧
      l' = e.ledger.put (a'.countActive.withQueueFactor factor) ∧
      s' = reboundStorage s (Engine.rebound b (a'.countActive.withQueueFactor factor) factor
        decision) decision := by
  cases effect with
  | unbound hb' => simp [hb] at hb'
  | prioritized hb' hp' =>
    cases hb.symm.trans hb'
    simp [hp] at hp'
  | stayed _ _ why =>
    cases why with
    | waiting hl | early hl | unresolvable hl => simp [hf] at hl
    | invalidQueue hf' hq' =>
      cases hf.symm.trans hf'
      simp [hq] at hq'
  | refused _ _ hf' hg' hreq =>
    cases hf.symm.trans hf'
    cases hg.symm.trans hg'
    simp only [holdRequests, Scheduler.serve, hreq] at hhold
    cases hhold
  | rebound hb' _ hf' hg' hq' hhold' hps hpatch' =>
    cases hb.symm.trans hb'
    cases hf.symm.trans hf'
    cases hg.symm.trans hg'
    cases hq.symm.trans hq'
    cases hhold.symm.trans hhold'
    subst hps
    cases hpatch.symm.trans hpatch'
    exact ⟨rfl, rfl, rfl, rfl⟩

/-! ### Requests of the two ways -/

omit [Scheduler H] in
theorem removed?_of_patches (job : Job) (ps : List JobspecPatch) :
    ∀ r ∈ patchRequests job ps, r.removed? = none := by
  intro r hr
  obtain ⟨p, -, rfl⟩ := List.mem_map.mp hr
  rfl

omit [Scheduler H] in
theorem removed?_of_hold (job : Job) (decision : Gate.Decision) :
    ∀ r ∈ holdRequests job decision, r.removed? = none := by
  intro r hr
  cases decision with
  | proceed => cases hr
  | hold =>
    obtain rfl := List.mem_singleton.mp hr
    rfl

omit [Scheduler H] in
@[simp] theorem banks_holdRequests (job : Job) (decision : Gate.Decision) :
    HostRequest.banks (holdRequests job decision) = [] := by
  cases decision with
  | proceed => rfl
  | hold => rfl

omit [Scheduler H] in
/-- A new job is given the bank that it would be given when it is moved. -/
theorem banks_givenPatches (job : Job) (a : Account) :
    HostRequest.banks (patchRequests job (givenPatches job a job.bank.isNone)) =
      HostRequest.banks (patchRequests job (bankPatches job a.key.bank)) := by
  unfold givenPatches bankPatches
  cases job.bank <;> cases job.project <;> cases a.terms.defaultProject <;> rfl

end Engine

/-! ### Both ways -/

/-- Two steps over a host end alike: they give the same answer and leave the same ledger, the
same binding and dependencies of the job, the same dependencies at the host, and the same
banks written there. -/
structure EndsAlike {α : Type} (s t : Step α Host) : Prop where
  outcome : s.outcome = t.outcome
  ledger : s.engine.ledger = t.engine.ledger
  storage : s.storage = t.storage
  dependencies : s.engine.host.dependencies = t.engine.host.dependencies
  banks : HostRequest.banks s.engine.host.log = HostRequest.banks t.engine.host.log

/-- What is kept for a job that passed the throttle of the placeholder that it holds. -/
def waitingStorage (home : Handle) : JobStorage where
  binding := some { account := home }

/-- How a job is bound to an account that counts it. -/
def enrolledBinding (home : Handle) (factor : Int64) : JobBinding where
  account := home
  queueFactor := factor
  countedActive := true

/-- What is kept for a job that is moved is what its announcement and the throttle keep. -/
theorem reboundStorage_waitingStorage (home : Handle) (a : Account) (factor : Int64)
    (decision : Gate.Decision) :
    Engine.reboundStorage (waitingStorage home)
        (Engine.rebound { account := home } a factor decision) decision =
      Engine.throttledStorage { binding := some (enrolledBinding a.handle factor) }
        (enrolledBinding a.handle factor) decision := by
  cases decision with
  | proceed => rfl
  | hold => rfl

/-- A job that is announced where its real account is known comes through the throttle counted
there, if the host refuses nothing. -/
theorem Engine.throttled_of_found {e : Engine Host} (hc : e.host.Calm) {job : Job}
    {a a' : Account} {factor : Int64} {decision : Gate.Decision}
    (hf : e.ledger.lookup job.userid job.bank = .found a)
    (ha : e.ledger.account? a.key = some a) (real : a.isPlaceholder = false)
    (hd : a.terms.runLimit ≠ .detached) (room : a.atActiveLimit = false)
    (hq : e.queueFactor? a job.queue = some factor)
    (hg : a.enterGate job.id = (decision, a')) (same : a'.handle = a.handle) :
    let announced := e.newJob job {}
    let throttled := announced.engine.depend job announced.storage
    announced.outcome = .ok () ∧ throttled.outcome = .ok (throttleAnswer decision) ∧
      throttled.engine.host =
        (e.host.acceptAll (patchRequests job (givenPatches job a job.bank.isNone))).acceptAll
          (holdRequests job decision) ∧
      throttled.engine.ledger = e.ledger.put (a'.countActive.withQueueFactor factor) ∧
      throttled.storage = throttledStorage { binding := some (enrolledBinding a.handle factor) }
        (enrolledBinding a.handle factor) decision := by
  intro announced throttled
  obtain ⟨rs₁, effect₁⟩ := e.newJob_effect job {}
  rw [startBinding_of_found rfl hf] at effect₁
  obtain ⟨ho₁, hh₁, hl₁, hs₁⟩ := effect₁.of_room (Ledger.object_of_account? ha) real hd room hq rfl
    (hc.serve (removed?_of_patches job _))
  have bound : announced.engine.boundAccount announced.storage =
      some (enrolledBinding a.handle factor, a.countActive.withQueueFactor factor) := by
    have kept : (e.ledger.put (a.countActive.withQueueFactor factor)).account? a.key =
        some (a.countActive.withQueueFactor factor) :=
      (Ledger.account?_put_of_kept (b := a.countActive.withQueueFactor factor) ha rfl _).trans
        (if_pos rfl)
    exact boundAccount_eq_some.mpr
      ⟨by rw [hs₁]; rfl, hl₁ ▸ Ledger.object_of_account? kept⟩
  have calm : announced.engine.host.Calm := by
    rw [hh₁]
    exact hc.acceptAll _
  obtain ⟨rs₂, effect₂⟩ := announced.engine.depend_effect job announced.storage
  obtain ⟨ho₂, hh₂, hl₂, hs₂⟩ := effect₂.of_real bound real (Account.enterGate_counted hg factor)
    (calm.serve (removed?_of_hold job decision))
  refine ⟨ho₁, ho₂, ?_, ?_, ?_⟩
  · rw [hh₂, hh₁]
  · rw [hl₂, hl₁]
    exact Ledger.put_put _ same
  · rw [hs₂, hs₁]
    rfl

/-- Where a real account with room is known that is in use and permits the queue of a job, and
the host refuses nothing, a job that waited at a placeholder ends up as it would have if it had
been announced now. That is so in every world. -/
theorem World.late_eq_early {w : World Host} (hc : w.engine.host.Calm) {job : Job}
    {real p : Account} (hf : w.engine.ledger.lookup job.userid job.bank = .found real)
    (hd : real.terms.runLimit ≠ .detached) (room : real.atActiveLimit = false)
    (hqueue : w.engine.queueFactor? real job.queue ≠ none)
    (hp : w.account ⟨job.userid, Account.placeholderBank⟩ = some p)
    (plain : p.isPlaceholder = true) :
    let announced := w.engine.newJob job {}
    let throttled := announced.engine.depend job announced.storage
    let late := w.engine.priority job (waitingStorage p.handle)
    let early := throttled.engine.priority job throttled.storage
    announced.outcome = .ok () ∧ (∃ answer, throttled.outcome = .ok answer) ∧
      (∃ value, late.outcome = .ok (.value value)) ∧ EndsAlike late early := by
  intro announced throttled late early
  have hreal := Ledger.isPlaceholder_of_found hf
  have hacc := (Ledger.account?_of_lookup (.inl hf)).1
  obtain ⟨factor, hq⟩ := Option.ne_none_iff_exists'.mp hqueue
  rcases hg : real.enterGate job.id with ⟨decision, a'⟩
  obtain ⟨same, real'⟩ : a'.handle = real.handle ∧ a'.isPlaceholder = false := by
    obtain ⟨gate, rfl⟩ := Account.eq_withGate_of_enterGate hg
    exact ⟨rfl, hreal⟩
  obtain ⟨ho₁, ho₂, host, ledger, storage⟩ :=
    Engine.throttled_of_found hc hf hacc hreal hd room hq hg same
  change throttled.engine.host = _ at host
  change throttled.engine.ledger = _ at ledger
  change throttled.storage = _ at storage
  -- early, the job asks its real account for its priority
  obtain ⟨r, hb⟩ := Engine.exists_binding_throttledStorage
    (s := { binding := some (enrolledBinding real.handle factor) }) rfl decision
  rw [← storage] at hb
  have there : throttled.engine.ledger.objects[real.handle]? =
      some (a'.countActive.withQueueFactor factor) := by
    rw [ledger, Ledger.getElem?_objects_put]
    refine (if_pos same).trans ?_
    rw [Ledger.object_of_account? hacc]
    rfl
  obtain ⟨rs, effect⟩ := throttled.engine.priority_effect job throttled.storage
  obtain ⟨ho, hh, hl, hs⟩ := effect.of_real (Engine.boundAccount_eq_some.mpr ⟨hb, there⟩) real'
  -- late, it is moved to it
  have calm : (w.engine.host.acceptAll (Engine.holdRequests job decision)).Calm := hc.acceptAll _
  obtain ⟨rs', effect'⟩ := w.engine.priority_effect job (waitingStorage p.handle)
  obtain ⟨ho', hh', hl', hs'⟩ := effect'.of_found
    (Engine.boundAccount_eq_some.mpr ⟨rfl, Ledger.object_of_account? hp⟩) plain hf hq hg
    (hc.serve (Engine.removed?_of_hold job decision))
    (calm.serve (Engine.removed?_of_patches job _))
  refine ⟨ho₁, ⟨_, ho₂⟩, ⟨_, ho'⟩, ?_⟩
  constructor
  · exact ho'.trans ho.symm
  · exact hl'.trans (ledger.symm.trans hl.symm)
  · rw [hs, hs', storage, ← same]
    exact reboundStorage_waitingStorage p.handle (a'.countActive.withQueueFactor factor) factor
      decision
  · rw [hh, hh', host, Host.dependencies_acceptAll_patches]
    have patched := Host.dependencies_acceptAll_patches w.engine.host job
      (Engine.givenPatches job real job.bank.isNone)
    cases decision with
    | proceed => exact patched.symm
    | hold => exact (congrArg (·.insert ⟨job.id, heldLabel⟩) patched).symm
  · have key : a'.key = real.key := congrArg Handle.key same
    rw [hh, hh', host]
    simp only [Host.log_acceptAll, HostRequest.banks_append, Engine.banks_holdRequests,
      Engine.banks_givenPatches, List.append_nil, key]

namespace World

namespace Sample

/-- Job 6 waits at the placeholder of its user when a record tells of an account with one
running slot, which job 7 takes. -/
def crowding : List (Event Host) :=
  [.call .new .null (job 6), .feed .accounts [record 1], .call .new .null (job 7),
   .call .depend .null (job 7), .call .priority .null (job 7), .call .run .null (job 7)]

/-- The world after that. -/
def crowded : World Host := start.afterAll crowding

/-- A job that names no bank. -/
def unnamed : Job := { job 8 with bank := none }

/-- The placeholder that job 6 waits at. -/
def parked : Handle := ⟨⟨key.userid, Account.placeholderBank⟩, 0⟩

end Sample

/-- In the sample, the job is held either way, and its bank is written. -/
theorem sample_late_eq_early :
    let announced := Sample.crowded.engine.newJob Sample.unnamed {}
    let throttled := announced.engine.depend Sample.unnamed announced.storage
    let late := Sample.crowded.engine.priority Sample.unnamed (waitingStorage Sample.parked)
    Sample.crowded.Reached HostOrder ∧ Sample.crowded.engine.host.Calm ∧
      throttled.outcome = .ok .held ∧ late.outcome = .ok (.value 50000) ∧
      late.engine.host.log.getLast? = some (.updateJobspec 8 (.bank Sample.key.bank)) ∧
      EndsAlike late (throttled.engine.priority Sample.unnamed throttled.storage) := by
  intro announced throttled late
  have reached : Sample.crowded.Reached HostOrder :=
    ⟨Config.default, {}, none, Sample.crowding, by decide +kernel, rfl⟩
  have calm : Sample.crowded.engine.host.Calm := by
    intro op
    cases op <;> decide +kernel
  have found : (match Sample.crowded.engine.ledger.lookup Sample.unnamed.userid
        Sample.unnamed.bank with
      | .found a => decide (a.terms.runLimit ≠ .detached) && !a.atActiveLimit &&
        (Sample.crowded.engine.queueFactor? a Sample.unnamed.queue).isSome
      | _ => false) = true := by
    decide +kernel
  have placeholder : ((Sample.crowded.account
      ⟨Sample.unnamed.userid, Account.placeholderBank⟩).any fun p =>
        p.isPlaceholder && p.handle = Sample.parked) = true := by
    decide +kernel
  have held : throttled.outcome = .ok .held := by decide +kernel
  have value : late.outcome = .ok (.value 50000) := by decide +kernel
  have bank : late.engine.host.log.getLast? =
      some (.updateJobspec 8 (.bank Sample.key.bank)) := by
    decide +kernel
  obtain ⟨p, hp, there⟩ := (Option.any_eq_true ..).mp placeholder
  obtain ⟨plain, handle⟩ : p.isPlaceholder = true ∧ p.handle = Sample.parked := by
    simpa using there
  split at found
  · rename_i real hf
    simp only [Bool.and_eq_true, decide_eq_true_eq, Bool.not_eq_true', Option.isSome_iff_ne_none]
      at found
    obtain ⟨⟨hd, room⟩, hq⟩ := found
    have alike := (late_eq_early calm hf hd room hq hp plain).2.2.2
    rw [handle] at alike
    exact ⟨reached, calm, held, value, bank, alike⟩
  · cases found

end World

end JobAdmission

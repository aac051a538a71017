import JobAdmission.Proofs.Keeping

/-!
# What steps tell

This module says how what a step of a job tells goes together with what it did
(`Engine.stepOf_reports`). The requests that the scheduler accepted in a step and the events
that it tells are paired, from the end of the step back to its start (`Told`): a step that fails
tells so last, a job that is held or released is told with the request for that, changes of a
specification are not told, and that a job was moved to a real account is told before all that
follows from it. What is told can be read off there (`Told.failures` and the like).
-/

namespace JobAdmission

open HostRequest

/-! ### Events -/

/-- What an event tells of an error. -/
def HandlerError.action : HandlerError → AuditAction
  | .rejected _ => .reject
  | .fault _ => .fault

/-- The event that tells of an error on a job. -/
def HandlerError.event (err : HandlerError) (job : Job) (bank : Option String) : AuditEvent :=
  ⟨job.id, job.userid, bank, err.action, some err.message⟩

/-- The call is on the priority of its job. -/
def Topic.onPriority (topic : Topic) : Prop := topic = .priority ∨ topic = .priorityGet

instance (topic : Topic) : Decidable topic.onPriority := inferInstanceAs (Decidable (_ ∨ _))

namespace AuditEvent

/-- The event tells that a call failed. -/
def isFailure (ev : AuditEvent) : Bool := ev.action = .reject ∨ ev.action = .fault

/-- The jobs that events of this kind are about, in order. -/
def jobsOf (action : AuditAction) (evs : List AuditEvent) : List JobId :=
  (evs.filter fun ev => ev.action = action).map (·.job)

/-- The details of the events of this kind, in order. -/
def detailsOf (action : AuditAction) (evs : List AuditEvent) : List (Option String) :=
  (evs.filter fun ev => ev.action = action).map (·.detail)

end AuditEvent

open AuditEvent

namespace AuditTrail

/-- Keeps events, one by one. -/
def recordAll (t : AuditTrail) (evs : List AuditEvent) : AuditTrail := evs.foldl record t

theorem recordAll_append (t : AuditTrail) (evs evs' : List AuditEvent) :
    t.recordAll (evs ++ evs') = (t.recordAll evs).recordAll evs' := List.foldl_append

/-- A trail without a capacity keeps all events. -/
theorem recordAll_of_unbounded {t : AuditTrail} (ht : t.capacity = none) (evs : List AuditEvent) :
    t.recordAll evs = { t with events := t.events ++ evs } := by
  induction evs generalizing t with
  | nil => simp [recordAll]
  | cons ev evs ih =>
    have now : t.record ev = { t with events := t.events ++ [ev] } := by
      simp [record, isFull, ht]
    change (t.record ev).recordAll evs = _
    rw [now, ih (by exact ht), List.append_assoc, List.singleton_append]

end AuditTrail

/-! ### What a call tells -/

/-- How a call on a job ends, which requests were accepted in it and which events it tells, and
whether it moves the job to a real account. -/
inductive Told {α : Type} (job : Job) :
    Except HandlerError α → List HostRequest → List AuditEvent → Bool → Prop where
  /-- The call ends well. -/
  | done (a : α) : Told job (.ok a) [] [] false
  /-- The call fails. -/
  | failed (err : HandlerError) (bank : Option String) :
    Told job (.error err) [] [err.event job bank] false
  /-- The job was admitted, its user has a placeholder, or it was given a priority. -/
  | noted {outcome : Except HandlerError α} {rs : List HostRequest} {evs : List AuditEvent}
    {moved : Bool} {action : AuditAction}
    (plain : action = .accept ∨ action = .placeholder ∨ action = .prioritize)
    (bank detail : Option String) (h : Told job outcome rs evs moved) :
    Told job outcome rs (⟨job.id, job.userid, bank, action, detail⟩ :: evs) moved
  /-- The specification of the job was changed, which is not told. -/
  | patched {outcome : Except HandlerError α} {rs : List HostRequest} {evs : List AuditEvent}
    {moved : Bool} (p : JobspecPatch) (h : Told job outcome rs evs moved) :
    Told job outcome (.updateJobspec job.id p :: rs) evs moved
  /-- The job was held. -/
  | held {outcome : Except HandlerError α} {rs : List HostRequest} {evs : List AuditEvent}
    {moved : Bool} (bank detail : Option String) (h : Told job outcome rs evs moved) :
    Told job outcome (.addDependency job.id heldLabel :: rs)
      (⟨job.id, job.userid, bank, .hold, detail⟩ :: evs) moved
  /-- A held job was released. -/
  | released {outcome : Except HandlerError α} {rs : List HostRequest} {evs : List AuditEvent}
    {moved : Bool} (next : JobId) (bank : Option String) (h : Told job outcome rs evs moved) :
    Told job outcome (.removeDependency next heldLabel :: rs)
      (⟨job.id, job.userid, bank, .release, some (Engine.releaseDetail next)⟩ :: evs) moved
  /-- The job was moved to a real account. -/
  | moved {outcome : Except HandlerError α} {rs : List HostRequest} {evs : List AuditEvent}
    (bank detail : Option String) (h : Told job outcome rs evs false) :
    Told job outcome rs (⟨job.id, job.userid, bank, .rebind, detail⟩ :: evs) true

namespace Told

variable {α β : Type} {job : Job} {outcome : Except HandlerError α} {rs : List HostRequest}
  {evs : List AuditEvent} {moved : Bool}

theorem map (h : Told job outcome rs evs moved) (f : α → β) :
    Told job (outcome.map f) rs evs moved := by
  induction h with
  | done a => exact .done (f a)
  | failed err bank => exact .failed err bank
  | noted plain bank detail _ ih => exact .noted plain bank detail ih
  | patched p _ ih => exact .patched p ih
  | held bank detail _ ih => exact .held bank detail ih
  | released next bank _ ih => exact .released next bank ih
  | moved bank detail _ ih => exact .moved bank detail ih

/-- All events are on the job of the call. -/
theorem own (h : Told job outcome rs evs moved) :
    ∀ ev ∈ evs, ev.job = job.id ∧ ev.userid = job.userid := by
  induction h with
  | done => exact fun _ h => nomatch h
  | failed err bank => simp [HandlerError.event]
  | patched _ _ ih => exact ih
  | noted _ _ _ _ ih | held _ _ _ ih | released _ _ _ ih | moved _ _ _ ih => simpa using ih

/-- A call that ends well tells of no failure, and one that fails tells so once and last. -/
theorem failures (h : Told job outcome rs evs moved) :
    (∃ a, outcome = .ok a ∧ evs.filter isFailure = []) ∨
      ∃ err bank, outcome = .error err ∧ evs.filter isFailure = [err.event job bank] ∧
        evs.getLast? = some (err.event job bank) := by
  -- an event that tells of no failure may come before
  have earlier : ∀ {outcome : Except HandlerError α} {ev : AuditEvent} {evs : List AuditEvent},
      isFailure ev = false →
      ((∃ a, outcome = .ok a ∧ evs.filter isFailure = []) ∨
        ∃ err bank, outcome = .error err ∧ evs.filter isFailure = [err.event job bank] ∧
          evs.getLast? = some (err.event job bank)) →
      (∃ a, outcome = .ok a ∧ (ev :: evs).filter isFailure = []) ∨
        ∃ err bank, outcome = .error err ∧ (ev :: evs).filter isFailure = [err.event job bank] ∧
          (ev :: evs).getLast? = some (err.event job bank) := by
    intro outcome ev evs calm h
    rw [List.filter_cons_of_neg (by simp [calm])]
    refine h.imp_right ?_
    rintro ⟨err, bank, ho, once, last⟩
    exact ⟨err, bank, ho, once, by rw [List.getLast?_cons, last]; rfl⟩
  induction h with
  | done a => exact .inl ⟨a, rfl, rfl⟩
  | failed err bank =>
    refine .inr ⟨err, bank, rfl, ?_, rfl⟩
    cases err <;> rfl
  | patched _ _ ih => exact ih
  | noted plain _ _ _ ih =>
    refine earlier ?_ ih
    rcases plain with rfl | rfl | rfl <;> rfl
  | held _ _ _ ih | released _ _ _ ih | moved _ _ _ ih => exact earlier rfl ih

/-- The jobs that are told to be held are those of the accepted requests. -/
theorem holds (h : Told job outcome rs evs moved) : jobsOf .hold evs = heldJobs rs := by
  induction h with
  | done => rfl
  | failed err => cases err <;> rfl
  | patched _ _ ih => exact ih
  | noted plain _ _ _ ih => rcases plain with rfl | rfl | rfl <;> exact ih
  | held _ _ _ ih => exact congrArg (job.id :: ·) ih
  | released _ _ _ ih | moved _ _ _ ih => exact ih

/-- The jobs that are told to be released are those of the accepted requests. -/
theorem releases (h : Told job outcome rs evs moved) :
    detailsOf .release evs = (releasedJobs rs).map (some ∘ Engine.releaseDetail) := by
  induction h with
  | done => rfl
  | failed err => cases err <;> rfl
  | patched _ _ ih => exact ih
  | noted plain _ _ _ ih => rcases plain with rfl | rfl | rfl <;> exact ih
  | released next _ _ ih => exact congrArg (some (Engine.releaseDetail next) :: ·) ih
  | held _ _ _ ih | moved _ _ _ ih => exact ih

/-- That the job was moved is told once, if it was. -/
theorem rebinds (h : Told job outcome rs evs moved) :
    jobsOf .rebind evs = if moved then [job.id] else [] := by
  induction h with
  | done => rfl
  | failed err => cases err <;> rfl
  | patched _ _ ih => exact ih
  | noted plain _ _ _ ih => rcases plain with rfl | rfl | rfl <;> exact ih
  | held _ _ _ ih | released _ _ _ ih => exact ih
  | moved _ _ _ ih => exact congrArg (job.id :: ·) ih

end Told

/-! ### Steps that tell -/

namespace Engine

variable {H : Type} {α : Type} {e e₁ e₂ : Engine (Recorded H)} {job : Job}
  {s : JobStorage} {step : Step α (Recorded H)} {rs rs' : List HostRequest}
  {evs evs' : List AuditEvent} {moved : Bool}

/-- From one engine to the other, these requests were accepted and these events were kept. -/
structure Writes (e e' : Engine (Recorded H)) (rs : List HostRequest)
    (evs : List AuditEvent) : Prop where
  record : e'.host.record = e.host.record ++ rs
  audit : e'.audit = e.audit.map (·.recordAll evs)

theorem Writes.of_same (host : e₁.host = e.host) (same : e₁.audit = e.audit) :
    e.Writes e₁ [] [] where
  record := by rw [host, List.append_nil]
  audit := by
    rw [same]
    cases e.audit <;> rfl

theorem Writes.trans (h : e.Writes e₁ rs evs) (h' : e₁.Writes e₂ rs' evs') :
    e.Writes e₂ (rs ++ rs') (evs ++ evs') where
  record := by rw [h'.record, h.record, List.append_assoc]
  audit := by
    rw [h'.audit, h.audit, Option.map_map]
    congr 1
    funext t
    exact (t.recordAll_append evs evs').symm

theorem writes_note (e : Engine (Recorded H)) (job : Job) (bank : Option String)
    (action : AuditAction) (detail : Option String) :
    e.Writes (e.note job bank action detail) [] [⟨job.id, job.userid, bank, action, detail⟩] where
  record := (List.append_nil _).symm
  audit := rfl

theorem Writes.noted (h : e.Writes e₁ rs evs) (job : Job) (bank : Option String)
    (action : AuditAction) (detail : Option String) :
    e.Writes (e₁.note job bank action detail) (rs ++ [])
      (evs ++ [⟨job.id, job.userid, bank, action, detail⟩]) :=
  h.trans (e₁.writes_note job bank action detail)

/-- A step ends with what goes together of requests and events. -/
def Reports (e : Engine (Recorded H)) (job : Job) (step : Step α (Recorded H)) (moved : Bool) :
    Prop :=
  ∃ rs evs, e.Writes step.engine rs evs ∧ Told job step.outcome rs evs moved

theorem Reports.map {β : Type} (h : e.Reports job step moved) (f : α → β) :
    e.Reports job (step.map f) moved := by
  obtain ⟨rs, evs, writes, told⟩ := h
  exact ⟨rs, evs, writes, told.map f⟩

theorem reports_done (e : Engine (Recorded H)) (job : Job) (s : JobStorage) (a : α) :
    e.Reports job (e.done s a) false := ⟨[], [], .of_same rfl rfl, .done a⟩

theorem reports_reject (e : Engine (Recorded H)) (job : Job) (s : JobStorage)
    (bank : Option String) (r : Rejection) :
    e.Reports job (e.reject job s bank r : Step α (Recorded H)) false :=
  ⟨[], _, e.writes_note job bank .reject (some r.message), .failed (.rejected r) bank⟩

theorem reports_fault (e : Engine (Recorded H)) (job : Job) (s : JobStorage) (f : Fault) :
    e.Reports job (e.fault job s f : Step α (Recorded H)) false :=
  ⟨[], _, e.writes_note job none .fault (some f.message), .failed (.fault f) none⟩

/-- A step may come after a change of the ledger. -/
theorem Reports.of_same (h : e₁.Reports job step moved) (host : e₁.host = e.host)
    (same : e₁.audit = e.audit) : e.Reports job step moved := by
  obtain ⟨rs, evs, writes, told⟩ := h
  exact ⟨rs, evs, (Writes.of_same host same).trans writes, told⟩

/-- A step may come after something that is told for no request. -/
theorem Reports.noted {bank detail : Option String} {action : AuditAction}
    (h : (e.note job bank action detail).Reports job step moved)
    (plain : action = .accept ∨ action = .placeholder ∨ action = .prioritize) :
    e.Reports job step moved := by
  obtain ⟨rs, evs, writes, told⟩ := h
  exact ⟨rs, _, (e.writes_note job bank action detail).trans writes, .noted plain bank detail told⟩

theorem reports_ensurePlaceholder (h : (e.ensurePlaceholder job).Reports job step moved) :
    e.Reports job step moved :=
  Reports.of_same (Reports.noted h (.inr (.inl rfl))) rfl rfl

/-! ### Moves -/

/-- The kind of the account that a job is bound to. -/
def boundKind (e : Engine H) (s : JobStorage) : Option AccountKind :=
  (e.boundAccount s).map (·.2.kind)

/-- The step moves its job from a placeholder to a real account. -/
def Moves (e : Engine H) (s : JobStorage) (step : Step α H) : Prop :=
  e.boundKind s = some .placeholder ∧ step.engine.boundKind step.storage = some .real

instance (e : Engine H) (s : JobStorage) (step : Step α H) : Decidable (e.Moves s step) :=
  inferInstanceAs (Decidable (_ ∧ _))

theorem boundKind_eq {e : Engine H} {b : JobBinding} {a : Account} (hs : s.binding = some b)
    (ha : e.ledger.objects[b.account]? = some a) : e.boundKind s = some a.kind := by
  rw [boundKind, boundAccount_eq_some.mpr ⟨hs, ha⟩]
  rfl

theorem kind_eq_placeholder {a : Account} : a.isPlaceholder = true ↔ a.kind = .placeholder := by
  simp [Account.isPlaceholder]

theorem kind_eq_real {a : Account} : a.isPlaceholder = false ↔ a.kind = .real := by
  cases h : a.kind <;> simp [Account.isPlaceholder, h]

/-- A step that leaves its job with an account of the same kind does not move it. -/
theorem Reports.stayed (h : e.Reports job step false)
    (same : step.engine.boundKind step.storage = e.boundKind s) :
    e.Reports job step (decide (e.Moves s step)) := by
  have still : ¬ e.Moves s step := by
    rintro ⟨before, after⟩
    rw [same, before] at after
    cases after
  rwa [decide_eq_false still]

/-- A step that moves its job comes after what is told of the move. -/
theorem Reports.rebound (h : e₁.Reports job step false) (writes : e.Writes e₁ rs evs)
    (told : ∀ rs' evs', Told job step.outcome rs' evs' false →
      Told job step.outcome (rs ++ rs') (evs ++ evs') true)
    (moves : e.Moves s step) : e.Reports job step (decide (e.Moves s step)) := by
  obtain ⟨rs', evs', writes', told'⟩ := h
  rw [decide_eq_true moves]
  exact ⟨_, _, writes.trans writes', told rs' evs' told'⟩

/-! ### Each step -/

variable [Scheduler H]

theorem Writes.of_accepts (ha : Scheduler.Accepts e.host rs e₁.host) (same : e₁.audit = e.audit) :
    e.Writes e₁ rs [] where
  record := Recorded.record_of_accepts ha
  audit := by
    rw [same]
    cases e.audit <;> rfl

/-- A step may come after a request that is refused. -/
theorem Reports.of_refused {r : HostRequest} {err : HostError}
    (h : e₁.Reports job step moved) (hreq : Scheduler.request e.host r = (some err, e₁.host))
    (same : e₁.audit = e.audit) : e.Reports job step moved := by
  obtain ⟨rs, evs, writes, told⟩ := h
  exact ⟨rs, evs, (Writes.of_accepts (.refused hreq) same).trans writes, told⟩

/-- A step may come after changes of the specification of its job. -/
theorem Reports.patched {ps : List JobspecPatch} {err : Option HostError}
    (hpatch : e.patch job ps = (err, e₁)) (h : e₁.Reports job step moved) :
    e.Reports job step moved := by
  obtain ⟨rs, evs, writes, told⟩ := h
  have accepts := Scheduler.accepts_serve e.host (patchRequests job ps)
  have asked : e.Writes e₁ (Scheduler.accepted e.host (patchRequests job ps)) [] := by
    rw [patch_eq] at hpatch
    cases hpatch
    exact .of_accepts accepts rfl
  refine ⟨_, evs, asked.trans writes, ?_⟩
  -- all that was accepted are changes of the specification
  have patches := (Scheduler.accepted_sublist e.host (patchRequests job ps)).subset
  generalize Scheduler.accepted e.host (patchRequests job ps) = accepted at patches
  induction accepted with
  | nil => exact told
  | cons r accepted ih =>
    obtain ⟨p, -, rfl⟩ := List.mem_map.mp (patches List.mem_cons_self)
    exact .patched p (ih fun _ hr => patches (List.mem_cons_of_mem _ hr))

omit [Scheduler H] in
theorem validate_reports (e : Engine (Recorded H)) (job : Job) (s : JobStorage) :
    e.Reports job (e.validate job s) false := by
  unfold validate
  split
  · exact e.reports_done job s ()
  · split
    · exact reports_ensurePlaceholder (reports_done _ job s ())
    · exact e.reports_reject ..
  · split
    · exact e.reports_reject ..
    · exact e.reports_done job s ()

theorem bindTo_reports (e : Engine (Recorded H)) (job : Job) (s : JobStorage) (b : JobBinding)
    (account : Account) (byDefault : Bool) :
    e.Reports job (e.bindTo job s b account byDefault) false := by
  unfold bindTo
  split
  · exact e.reports_done ..
  · split
    · exact e.reports_done ..
    · split
      · exact e.reports_reject ..
      · split
        · exact e.reports_reject ..
        · unfold enroll
          simp only
          split
          · rename_i hpatch
            exact .of_same (.patched hpatch (reports_fault ..)) rfl rfl
          · rename_i hpatch
            exact .of_same (.patched hpatch (.noted (reports_done ..) (.inl rfl))) rfl rfl

omit [Scheduler H] in
/-- A step may come after its job was given a binding to start from. -/
theorem reports_startBinding (s : JobStorage)
    (h : (e.startBinding job s).2.2.Reports job step moved) : e.Reports job step moved := by
  cases hs : s.binding with
  | some b =>
    rw [e.startBinding_of_bound job hs] at h
    exact h
  | none =>
    obtain ⟨a, -, start⟩ | ⟨a, -, start⟩ | ⟨-, start⟩ := e.startBinding_cases job hs
    · rw [start] at h
      exact h
    · rw [start] at h
      exact h
    · rw [start] at h
      exact reports_ensurePlaceholder h

theorem newJob_reports (e : Engine (Recorded H)) (job : Job) (s : JobStorage) :
    e.Reports job (e.newJob job s) false := by
  refine reports_startBinding s ?_
  unfold newJob
  generalize e.startBinding job s = start
  obtain ⟨b, byDefault, e₁⟩ := start
  simp only
  split
  · exact e₁.reports_fault ..
  · exact e₁.bindTo_reports ..

theorem depend_reports (e : Engine (Recorded H)) (job : Job) (s : JobStorage) :
    e.Reports job (e.depend job s) false := by
  unfold depend
  split
  · exact e.reports_fault ..
  · rename_i b a hb
    split
    · exact e.reports_done ..
    · obtain ⟨r, a', hg, ht⟩ | ⟨a', host, hg, hreq, ht⟩ | ⟨a', err, host, hg, hreq, ht⟩ :=
        e.throttle_cases job a
      · rw [ht]
        exact .of_same (reports_done ..) rfl rfl
      · rw [ht]
        have asked : e.Writes { e.put a' with host } [.addDependency job.id heldLabel] [] :=
          .of_accepts (.next hreq .done) rfl
        exact ⟨_, _, asked.trans (writes_note ..), .held _ _ (.done _)⟩
      · rw [ht]
        exact .of_refused (reports_fault ..) hreq rfl

omit [Scheduler H] in
theorem run_reports (e : Engine (Recorded H)) (job : Job) (s : JobStorage) :
    e.Reports job (e.run job s) false := by
  unfold run
  split
  · exact e.reports_fault ..
  · exact .of_same (reports_done ..) rfl rfl

theorem inactive_reports (e : Engine (Recorded H)) (job : Job) (s : JobStorage) :
    e.Reports job (e.inactive job s) false := by
  unfold inactive
  split
  · exact e.reports_fault ..
  · simp only
    split
    · unfold release
      split
      · exact .of_same (reports_done ..) rfl rfl
      · split
        · rename_i hreq
          exact .of_refused (reports_fault ..) hreq rfl
        · rename_i next a' _ _ host hreq
          have asked : e.Writes { e.put a' with host } [.removeDependency next heldLabel] [] :=
            .of_accepts (.next hreq .done) rfl
          exact ⟨_, _, asked.trans (writes_note ..), .released _ _ (.done _)⟩
    · exact .of_same (reports_done ..) rfl rfl

omit [Scheduler H] in
theorem updateQueue_reports (e : Engine (Recorded H)) (job : Job) (s : JobStorage)
    (queue : Option String) : e.Reports job (e.updateQueue job s queue) false := by
  unfold updateQueue
  split
  · exact e.reports_fault ..
  · split
    · exact e.reports_reject ..
    · exact e.reports_done ..

omit [Scheduler H] in
theorem queueUpdated_reports (e : Engine (Recorded H)) (job : Job) (s : JobStorage) :
    e.Reports job (e.queueUpdated job s) false := by
  obtain ⟨b, a, factor, -, -, -, step⟩ | ⟨b, a, -, -, step⟩ | ⟨f, -, step⟩ :=
    e.queueUpdated_cases job s
  · rw [step]
    exact .of_same (reports_done ..) rfl rfl
  · rw [step]
    exact e.reports_done ..
  · rw [step]
    exact e.reports_fault ..

omit [Scheduler H] in
/-- What the end of a move tells. -/
theorem prioritize_reports (e : Engine (Recorded H)) (job : Job) (s : JobStorage)
    (account : Account) (b : JobBinding) : e.Reports job (e.prioritize job s account b) false :=
  .noted (reports_done ..) (.inr (.inr rfl))

theorem rebind_reports {b : JobBinding} {p account : Account}
    (hb : e.boundAccount s = some (b, p)) (hp : p.isPlaceholder = true)
    (hf : e.ledger.lookup job.userid job.bank = .found account) :
    e.Reports job (e.rebind job s b account)
      (decide (e.Moves s (e.rebind job s b account))) := by
  obtain ⟨hs, ha⟩ := boundAccount_eq_some.mp hb
  have before : e.boundKind s = some .placeholder :=
    (boundKind_eq hs ha).trans (congrArg some (kind_eq_placeholder.mp hp))
  -- a job that is bound to the account as its gate left it is bound to a real account
  have after : ∀ {e' : Engine (Recorded H)} {decision : Gate.Decision} {a' : Account}
      {factor : Int64}, account.enterGate job.id = (decision, a') →
      e'.ledger = e.ledger.put (a'.countActive.withQueueFactor factor) →
      e'.boundKind (reboundStorage s
        (Engine.rebound b (a'.countActive.withQueueFactor factor) factor decision) decision) =
          some .real := by
    intro e' decision a' factor hg ledger
    have found := Ledger.object_of_account? (Ledger.account?_of_lookup (.inl hf)).1
    obtain ⟨gate, rfl⟩ := Account.eq_withGate_of_enterGate hg
    have same : ((account.withGate gate).countActive.withQueueFactor factor).handle =
        account.handle := rfl
    have kept : e'.ledger.objects[(Engine.rebound b ((account.withGate gate).countActive
        |>.withQueueFactor factor) factor decision).account]? =
          some ((account.withGate gate).countActive.withQueueFactor factor) := by
      rw [rebound_account, ledger, Ledger.getElem?_objects_put_of_mem found same, same, if_pos rfl]
    rw [boundKind_eq (reboundStorage_binding ..) kept]
    have real := kind_eq_real.mp (Ledger.isPlaceholder_of_found hf)
    exact congrArg some real
  unfold rebind
  split
  · exact .stayed (reports_fault ..) rfl
  · rename_i factor hq
    obtain ⟨r, a', hg, ht⟩ | ⟨a', host, hg, hreq, ht⟩ | ⟨a', err, host, hg, hreq, ht⟩ :=
      e.throttle_cases job account
    · rw [ht]
      have asked : e.Writes { e.put (a'.countActive.withQueueFactor factor) with
          host := e.host } [] [] := .of_same rfl rfl
      have moved := asked.noted job (some a'.key.bank) .rebind none
      simp only [reduceCtorEq, if_false]
      split
      · rename_i hpatch
        exact .rebound (.patched hpatch (reports_fault ..)) moved (fun _ _ => .moved _ _)
          ⟨before, after hg (serve_of_patch hpatch).2⟩
      · rename_i hpatch
        exact .rebound (.patched hpatch (prioritize_reports ..)) moved (fun _ _ => .moved _ _)
          ⟨before, after hg (serve_of_patch hpatch).2⟩
    · rw [ht]
      have asked : e.Writes { e.put (a'.countActive.withQueueFactor factor) with host }
          [.addDependency job.id heldLabel] [] := .of_accepts (.next hreq .done) rfl
      have moved := (asked.noted job (some a'.key.bank) .rebind none).noted job
        (some a'.key.bank) .hold none
      have told : ∀ (outcome : Except HandlerError PriorityOutcome) rs' evs',
          Told job outcome rs' evs' false →
          Told job outcome (.addDependency job.id heldLabel :: rs')
            (⟨job.id, job.userid, some a'.key.bank, .rebind, none⟩ ::
              ⟨job.id, job.userid, some a'.key.bank, .hold, none⟩ :: evs') true :=
        fun _ _ _ told => .moved _ _ (.held _ _ told)
      simp only [if_true]
      split
      · rename_i hpatch
        exact .rebound (.patched hpatch (reports_fault ..)) moved (told _)
          ⟨before, after hg (serve_of_patch hpatch).2⟩
      · rename_i hpatch
        exact .rebound (.patched hpatch (prioritize_reports ..)) moved (told _)
          ⟨before, after hg (serve_of_patch hpatch).2⟩
    · rw [ht]
      refine .stayed (.of_refused (reports_fault ..) hreq rfl) (Eq.trans ?_ before.symm)
      -- the account that turned the job back is another one than its placeholder
      have other : (a'.unhold job.id).handle ≠ b.account := by
        obtain ⟨gate, rfl⟩ := Account.eq_withGate_of_enterGate hg
        exact (ne_of_found hb hp hf).symm
      refine (boundKind_eq hs ?_).trans (congrArg some (kind_eq_placeholder.mp hp))
      change (e.ledger.put (a'.unhold job.id)).objects[b.account]? = some p
      rw [Ledger.getElem?_objects_put, if_neg other, ha]

theorem priority_reports (job : Job) (s : JobStorage) :
    e.Reports job (e.priority job s) (decide (e.Moves s (e.priority job s))) := by
  unfold priority
  split
  · exact .stayed (reports_fault ..) rfl
  · rename_i b a hb
    split
    · rename_i hp
      split
      · rename_i real hf
        exact rebind_reports hb hp hf
      · exact .stayed (reports_done ..) rfl
      · split
        · exact .stayed (reports_done ..) rfl
        · exact .stayed (reports_fault ..) rfl
    · exact .stayed (prioritize_reports ..) rfl

/-- A step tells what it did: that it moved its job, it tells if and only if it is the step of
a priority and moved it. -/
theorem stepOf_reports (e : Engine (Recorded H)) (topic : Topic) (args : Json) (job : Job)
    (s : JobStorage) : ∃ moved, e.Reports job (e.stepOf topic args job s) moved ∧
      (moved = true ↔ topic.onPriority ∧ e.Moves s (e.stepOf topic args job s)) := by
  cases topic with
  | validate => exact ⟨false, (e.validate_reports job s).map _, by simp [Topic.onPriority]⟩
  | new => exact ⟨false, (e.newJob_reports job s).map _, by simp [Topic.onPriority]⟩
  | depend => exact ⟨false, (e.depend_reports job s).map _, by simp [Topic.onPriority]⟩
  | priority | priorityGet =>
    refine ⟨_, (priority_reports job s).map _, decide_eq_true_iff.trans ?_⟩
    exact (and_iff_right (by simp [Topic.onPriority])).symm
  | run => exact ⟨false, (e.run_reports job s).map _, by simp [Topic.onPriority]⟩
  | inactive => exact ⟨false, (e.inactive_reports job s).map _, by simp [Topic.onPriority]⟩
  | updateQueue =>
    exact ⟨false, (e.updateQueue_reports job s (proposedQueue args)).map _,
      by simp [Topic.onPriority]⟩
  | queueUpdated =>
    exact ⟨false, (e.queueUpdated_reports job s).map _, by simp [Topic.onPriority]⟩

end Engine

end JobAdmission

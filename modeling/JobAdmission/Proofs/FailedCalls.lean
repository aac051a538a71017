import JobAdmission.Proofs.Agreement
import JobAdmission.Proofs.Binding

/-!
# Failed calls leave no trace

This module proves that a call which is answered with an error leaves everything as it was
(`World.Reached.failed_call_intact`): the ledger, what is kept for the job, the dependencies
that the host carries and its log. The audit trail tells of the failure, and the host is made
to refuse one request less, if it refused one. Excepted are the errors by which the calls on a
new job, on a job that is given a priority and on a job that leaves tell of a request which was
refused after the step took effect (`HandlerError.isLate`).

Some steps fail before they change anything. The other ones take back what they changed: a job
that cannot be held leaves the gate again, which restores the account only because the gate did
not know the job (`Account.unhold_of_enterGate`), and a new job that is rejected can have asked
for a placeholder, which changes nothing only because a user with a real account has a default
bank (`Ledger.Banked`).
-/

namespace JobAdmission

/-! ### Changes that change nothing -/

namespace Ledger

variable {l l' : Ledger} {a : Account} {k : AccountKey} {userid : UserId} {bank : String}

/-- Putting an account back as it was taken. -/
theorem put_eq_self {h : Handle} (ha : l.objects[h]? = some a) : l.put a = l := by
  refine eq_of_objects (fun h' => ?_) (fun _ => rfl) rfl rfl rfl
  rw [getElem?_objects_put_of_mem ha rfl]
  split
  · rename_i same
    rw [← same, ha]
  · rfl

/-- A user who has an account in the placeholders' bank and a default bank gets no placeholder. -/
theorem ensurePlaceholder_eq_self
    (ha : l.account? ⟨userid, Account.placeholderBank⟩ = some a)
    (hd : l.defaultBanks[userid]? = some bank) (fairshare : Binary64) :
    l.ensurePlaceholder userid fairshare = l := by
  have defaults : l.defaultBanks.insertIfNew userid Account.placeholderBank = l.defaultBanks := by
    have there : userid ∈ l.defaultBanks := by
      rw [Std.ExtTreeMap.mem_iff_isSome_getElem?, hd]
      rfl
    apply Std.ExtTreeMap.ext_getElem?
    intro u
    rw [Std.ExtTreeMap.getElem?_insertIfNew, if_neg fun h => h.2 there]
  rw [ensurePlaceholder, ha, defaults]

end Ledger

/-- A host that accepted nothing has the log and the dependencies that it had. -/
theorem Host.unchanged_of_accepts {h h' : Host} (ha : Scheduler.Accepts h [] h') :
    h'.log = h.log ∧ h'.dependencies = h.dependencies := by
  cases ha with
  | done => exact ⟨rfl, rfl⟩
  | @refused _ _ r err hr =>
    change h.request r = (some err, h') at hr
    unfold Host.request at hr
    split at hr
    · cases hr
      exact ⟨rfl, rfl⟩
    · split at hr
      · cases hr
        exact ⟨rfl, rfl⟩
      · cases hr

/-! ### Steps that leave no trace -/

/-- The error is answered to a call on the topic after the step took effect: the host refused to
change the specification of a job that was counted or moved to its account, or to release a job
after another one left. -/
def HandlerError.isLate : HandlerError → Topic → Bool
  | .fault (.jobspecUpdate _), topic => topic ∈ [Topic.new, .priority, .priorityGet]
  | .fault (.dependencyRemove _), topic => topic = .inactive
  | _, _ => false

theorem HandlerError.unpatched_of_early {err : HandlerError} {topic : Topic}
    (early : err.isLate topic = false) (patches : topic ∈ [Topic.new, .priority, .priorityGet])
    (reason : HostError) : err ≠ .fault (.jobspecUpdate reason) := by
  rintro rfl
  cases early.symm.trans (decide_eq_true patches)

/-- The step changes neither the ledger nor what is kept for the job, and the scheduler accepts
nothing in it. -/
structure Step.Idle {α H : Type} [Scheduler H] (step : Step α H) (e : Engine H) (s : JobStorage) :
    Prop where
  ledger : step.engine.ledger = e.ledger
  storage : step.storage = s
  accepts : Scheduler.Accepts e.host [] step.engine.host

/-- The step leaves everything as it was, except for the audit trail and for what the host is
made to refuse. -/
structure Step.Intact {α : Type} (step : Step α Host) (e : Engine Host) (s : JobStorage) :
    Prop where
  ledger : step.engine.ledger = e.ledger
  storage : step.storage = s
  log : step.engine.host.log = e.host.log
  dependencies : step.engine.host.dependencies = e.host.dependencies

theorem Step.Idle.intact {α : Type} {step : Step α Host} {e : Engine Host} {s : JobStorage}
    (h : step.Idle e s) : step.Intact e s :=
  ⟨h.ledger, h.storage, (Host.unchanged_of_accepts h.accepts).1,
    (Host.unchanged_of_accepts h.accepts).2⟩

theorem Step.Idle.map {α β H : Type} [Scheduler H] {step : Step α H} {e : Engine H}
    {s : JobStorage} (h : step.Idle e s) (f : α → β) : (step.map f).Idle e s :=
  ⟨h.ledger, h.storage, h.accepts⟩

namespace Engine

variable {H : Type} [Scheduler H] {e : Engine H} {job : Job} {s : JobStorage} {err : HandlerError}

/-- A job that is not valid changes nothing. -/
theorem validate_idle (ho : (e.validate job s).outcome = .error err) :
    (e.validate job s).Idle e s := by
  refine ⟨?_, e.validate_storage job s, .of_eq (e.validate_host job s)⟩
  unfold validate at ho ⊢
  split at ho
  · cases ho
  · split at ho
    · cases ho
    · rename_i told
      rw [if_neg told]
      rfl
  · split at ho
    · rfl
    · cases ho

omit [Scheduler H] in
/-- A job that starts from a real account finds it as it is, where users with real accounts have
default banks: no placeholder is created for the job. -/
theorem startBinding_ledger_of_real (hb : e.ledger.Banked) (hs : s.binding = none) {a : Account}
    (ha : (e.startBinding job s).2.2.ledger.objects[(e.startBinding job s).1.account]? = some a)
    (real : a.isPlaceholder = false) : (e.startBinding job s).2.2.ledger = e.ledger := by
  obtain ⟨a, -, start⟩ | ⟨a, -, start⟩ | ⟨-, start⟩ := e.startBinding_cases job hs
  · rw [start]
  · rw [start]
  · rw [start] at ha ⊢
    simp only [ensurePlaceholder, note_ledger] at ha ⊢
    rw [Ledger.object_of_placeholderHandle, Ledger.account?_ensurePlaceholder] at ha
    split at ha
    · cases ha
      cases real
    · obtain ⟨bank, hd⟩ := hb _ a ha
      exact Ledger.ensurePlaceholder_eq_self ha hd _

/-- A new job that no account takes changes nothing, where users with real accounts have default
banks: the account that does not take it was there. -/
theorem newJob_idle (hb : e.ledger.Banked) (ho : (e.newJob job s).outcome = .error err)
    (early : ∀ reason, err ≠ .fault (.jobspecUpdate reason)) : (e.newJob job s).Idle e s := by
  obtain ⟨rs, effect⟩ := e.newJob_effect job s
  rw [ho] at effect
  generalize hledger : (e.newJob job s).engine.ledger = ledger at effect
  generalize hstorage : (e.newJob job s).storage = storage at effect
  generalize hhost : (e.newJob job s).engine.host = host at effect
  generalize hanswer : Except.error err = answer at effect
  cases effect with
  | placed | detached => cases hanswer
  | @enrolled _ _ _ refusal =>
    cases refusal with
    | none => cases hanswer
    | some reason =>
      cases hanswer
      exact absurd rfl (early reason)
  | rejected away =>
    refine ⟨hledger.trans ?_, hstorage, .of_eq hhost⟩
    cases hs : s.binding with
    | some b => rw [e.startBinding_of_bound job hs]
    | none =>
      cases ha : (e.startBinding job s).2.2.ledger.objects[(e.startBinding job s).1.account]? with
      | some a =>
        -- the account turns the job away, so it is real
        exact startBinding_ledger_of_real hb hs ha (away a ha).1
      | none =>
        obtain ⟨a, -, start⟩ | ⟨a, -, start⟩ | ⟨-, start⟩ := e.startBinding_cases job hs
        · rw [start]
        · rw [start]
        · rw [start] at ha
          simp only [ensurePlaceholder, note_ledger] at ha
          rw [Ledger.object_of_placeholderHandle, Ledger.account?_ensurePlaceholder] at ha
          split at ha
          · cases ha
          · rename_i absent
            exact absurd ⟨rfl, ha⟩ absent

omit [Scheduler H] in
/-- A job that the gate does not know and that cannot be held leaves its account as it was. -/
theorem put_unhold {h : Handle} {a a' : Account} {j : JobId}
    (ha : e.ledger.objects[h]? = some a) (held : j ∉ a.usage.gate.held)
    (released : j ∉ a.usage.gate.released) (hg : a.enterGate j = (.hold, a')) :
    e.ledger.put (a'.unhold j) = e.ledger := by
  rw [Account.unhold_of_enterGate held released hg]
  exact Ledger.put_eq_self ha

end Engine

namespace World

variable {H : Type} [Scheduler H] {w : World H} {ev : Event H} {topic : Topic} {args : Json}
  {job : Job} {l : LiveJob} {err : HandlerError}

/-! ### Calls that leave no trace -/

theorem Sound.depend_idle (hs : w.Sound) (hl : w.live job.id = some l) (hp : l.phase = .fresh)
    (ho : (w.engine.depend job l.storage).outcome = .error err) :
    (w.engine.depend job l.storage).Idle w.engine l.storage := by
  obtain ⟨rs, effect⟩ := w.engine.depend_effect job l.storage
  have accepts := effect.accepts
  rw [ho] at effect
  generalize hledger : (w.engine.depend job l.storage).engine.ledger = ledger at effect
  generalize hstorage : (w.engine.depend job l.storage).storage = storage at effect
  generalize hhost : (w.engine.depend job l.storage).engine.host = host at effect accepts
  generalize hanswer : Except.error err = answer at effect
  cases effect with
  | waved | admitted | held => cases hanswer
  | unbound => exact ⟨hledger, hstorage, hhost ▸ accepts⟩
  | @refused b a a' _ _ hb _ hg =>
    obtain ⟨hb', ha⟩ := hs.bound hl hb
    have member := scene_member_of_binding hl hb'
    obtain ⟨-, held, released⟩ :=
      (((hs.scenes b.account.key).books a ha).fits job.id _ member).early (.inl hp)
    have bound := (Engine.boundAccount_eq_some.mp hb).2
    exact ⟨hledger.trans (Engine.put_unhold bound held released hg), hstorage,
      hhost ▸ accepts⟩

theorem Sound.priority_idle (hs : w.Sound) (hl : w.live job.id = some l)
    (ho : (w.engine.priority job l.storage).outcome = .error err)
    (early : ∀ reason, err ≠ .fault (.jobspecUpdate reason)) :
    (w.engine.priority job l.storage).Idle w.engine l.storage := by
  obtain ⟨rs, effect⟩ := w.engine.priority_effect job l.storage
  have accepts := effect.accepts
  rw [ho] at effect
  generalize hledger : (w.engine.priority job l.storage).engine.ledger = ledger at effect
  generalize hstorage : (w.engine.priority job l.storage).storage = storage at effect
  generalize hhost : (w.engine.priority job l.storage).engine.host = host at effect accepts
  generalize hanswer : Except.error err = answer at effect
  cases effect with
  | unbound | stayed => exact ⟨hledger, hstorage, hhost ▸ accepts⟩
  | prioritized => cases hanswer
  | @refused b p real a' _ _ hb hp hf hg =>
    obtain ⟨-, hfound⟩ := account_of_found hf
    -- the job is bound to a placeholder, so the gate of the real account does not know it
    have absent := absent_of_found hl (hs.bound hl hb).1 (hs.bound hl hb).2 hp hf
    have outside := ((hs.scenes real.key).books real hfound).outside_of_none absent
    have there := Ledger.object_of_account? hfound
    exact ⟨hledger.trans (Engine.put_unhold there outside.held outside.released hg),
      hstorage, hhost ▸ accepts⟩
  | @rebound _ _ _ _ _ _ refusal =>
    cases refusal with
    | none => cases hanswer
    | some reason =>
      cases hanswer
      exact absurd rfl (early reason)

theorem inactive_idle (ho : (w.engine.inactive job l.storage).outcome = .error err)
    (early : ∀ reason, err ≠ .fault (.dependencyRemove reason)) :
    (w.engine.inactive job l.storage).Idle w.engine l.storage := by
  obtain ⟨rs, effect⟩ := w.engine.inactive_effect job l.storage
  rw [ho] at effect
  generalize hledger : (w.engine.inactive job l.storage).engine.ledger = ledger at effect
  generalize hstorage : (w.engine.inactive job l.storage).storage = storage at effect
  generalize hhost : (w.engine.inactive job l.storage).engine.host = host at effect
  generalize hanswer : Except.error err = answer at effect
  cases effect with
  | unbound => exact ⟨hledger, hstorage, .of_eq hhost⟩
  | left | freed | released => cases hanswer
  | kept =>
    cases hanswer
    exact absurd rfl (early _)

/-- A call in the host's order that is answered with an error changes nothing, unless the error
is a late one. -/
theorem Sound.step_idle (hs : w.Sound) (hb : w.engine.ledger.Banked)
    (h : w.HostOrder (.call topic args job)) (ho : (w.step topic args job).outcome = .error err)
    (early : err.isLate topic = false) :
    (w.step topic args job).Idle w.engine (w.storage job.id) := by
  unfold step at ho ⊢
  cases topic with
  | validate => exact (Engine.validate_idle (Step.outcome_map_eq_error.mp ho)).map _
  | new =>
    have unpatched := HandlerError.unpatched_of_early early (by decide)
    exact (Engine.newJob_idle hb (Step.outcome_map_eq_error.mp ho) unpatched).map _
  | depend =>
    obtain ⟨l, hl, due⟩ := h
    have fresh : l.phase = .fresh := by simpa [Phase.admits] using due.phase
    rw [storage_of_live hl] at ho ⊢
    exact (hs.depend_idle hl fresh (Step.outcome_map_eq_error.mp ho)).map _
  | priority | priorityGet =>
    have unpatched := HandlerError.unpatched_of_early early (by decide)
    obtain ⟨l, hl, -⟩ := h
    rw [storage_of_live hl] at ho ⊢
    exact (hs.priority_idle hl (Step.outcome_map_eq_error.mp ho) unpatched).map _
  | run =>
    have answer := Step.outcome_map_eq_error.mp ho
    refine Step.Idle.map ⟨?_, ?_, .of_eq (w.engine.run_host job _)⟩ _
    all_goals
      unfold Engine.run at answer ⊢
      split at answer
      · rfl
      · cases answer
  | inactive =>
    have unkept : ∀ reason, err ≠ .fault (.dependencyRemove reason) := by
      rintro reason rfl
      cases early
    obtain ⟨l, hl, -⟩ := h
    rw [storage_of_live hl] at ho ⊢
    exact (inactive_idle (Step.outcome_map_eq_error.mp ho) unkept).map _
  | updateQueue =>
    obtain ⟨ledger, host, storage⟩ :=
      w.engine.updateQueue_effect job (w.storage job.id) (Engine.proposedQueue args)
    exact ⟨ledger, storage, .of_eq host⟩
  | queueUpdated =>
    obtain ⟨b, a, factor, -, -, -, hstep⟩ | ⟨b, a, -, -, hstep⟩ | ⟨f, -, hstep⟩ :=
      w.engine.queueUpdated_cases job (w.storage job.id)
    · rw [Engine.stepOf, hstep] at ho
      cases ho
    · rw [Engine.stepOf, hstep] at ho
      cases ho
    · rw [Engine.stepOf, hstep]
      exact ⟨rfl, rfl, .done⟩

end World

/-! ### Dispatch -/

namespace Engine

variable {H : Type} [Scheduler H]

/-- An event of a job is ignored, or its arguments are refused, or it is a call on the job. -/
theorem dispatch_cases (e : Engine H) (name : String) (args : Json) (s : JobStorage) :
    e.dispatch name args s = e.done s .ignored ∨
    (∃ topic reason, e.dispatch name args s = ⟨.error (unpackError topic reason), e, s⟩) ∨
    ∃ topic job, Topic.ofName? name = some topic ∧ Job.decode args = .ok job ∧
      e.dispatch name args s = e.stepOf topic args job s := by
  unfold dispatch
  split
  · exact .inl rfl
  · rename_i topic ht
    split
    · rename_i reason _
      exact .inr (.inl ⟨topic, reason, rfl⟩)
    · rename_i job hj
      exact .inr (.inr ⟨topic, job, ht, hj, rfl⟩)

/-- No call on a job is ignored. -/
theorem stepOf_ne_ignored (e : Engine H) (topic : Topic) (args : Json) (job : Job)
    (s : JobStorage) : (e.stepOf topic args job s).outcome ≠ .ok .ignored := by
  intro h
  cases topic with
  | validate | new | run | inactive | updateQueue | queueUpdated =>
    obtain ⟨_, -, given⟩ := Step.outcome_map_eq_ok.mp h
    cases given
  | depend =>
    obtain ⟨answer, -, given⟩ := Step.outcome_map_eq_ok.mp h
    cases answer <;> cases given
  | priority | priorityGet =>
    obtain ⟨answer, -, given⟩ := Step.outcome_map_eq_ok.mp h
    cases answer <;> cases given

end Engine

/-- The answer tells that nothing was done: the event is ignored, or there is an error that is
not a late one for the topic. -/
def Reply.declines (topic : Option Topic) : Except HandlerError Reply → Bool
  | .ok .ignored => true
  | .ok _ => false
  | .error err => !topic.any err.isLate

namespace World

variable {H : Type} [Scheduler H]

/-- An event of a job comes in the host's order: if its arguments are those of a job, the call
on that job is in order, and comes with what is kept for the job. -/
def Delivers (w : World H) (name : String) (args : Json) (s : JobStorage) : Prop :=
  ∀ topic job, Topic.ofName? name = some topic → Job.decode args = .ok job →
    w.HostOrder (.call topic args job) ∧ s = w.storage job.id

/-- A call that is answered with an error, and an event that is ignored or whose arguments are
refused, leaves everything as it was in every world that a run over a recording host leads to.
Excepted are the errors that tell of a request which the host refused after the step took
effect: of a changed specification, where a job is new or is given a priority, and of a release,
where a job leaves. -/
theorem Reached.failed_call_intact {w : World Host} (h : w.Reached HostOrder) :
    (∀ topic args job, w.HostOrder (.call topic args job) →
      Reply.declines (some topic) (w.step topic args job).outcome = true →
        (w.step topic args job).Intact w.engine (w.storage job.id)) ∧
    ∀ name args s, w.Delivers name args s →
      Reply.declines (Topic.ofName? name) (w.engine.dispatch name args s).outcome = true →
        (w.engine.dispatch name args s).Intact w.engine s := by
  have calls : ∀ topic args job, w.HostOrder (.call topic args job) →
      Reply.declines (some topic) (w.step topic args job).outcome = true →
        (w.step topic args job).Intact w.engine (w.storage job.id) := by
    intro topic args job horder hdeclines
    cases ho : (w.step topic args job).outcome with
    | error err =>
      rw [ho] at hdeclines
      have early : err.isLate topic = false := by simpa [Reply.declines] using hdeclines
      exact (h.sound.step_idle h.banked horder ho early).intact
    | ok reply =>
      have ignored : reply = .ignored := by
        rw [ho] at hdeclines
        cases reply <;> simp_all [Reply.declines]
      exact absurd (ignored ▸ ho) (w.engine.stepOf_ne_ignored topic args job _)
  refine ⟨calls, ?_⟩
  intro name args s hdelivers hdeclines
  obtain hstep | ⟨topic, reason, hstep⟩ | ⟨topic, job, ht, hj, hstep⟩ :=
    w.engine.dispatch_cases name args s
  · rw [hstep]
    exact ⟨rfl, rfl, rfl, rfl⟩
  · rw [hstep]
    exact ⟨rfl, rfl, rfl, rfl⟩
  · obtain ⟨horder, rfl⟩ := hdelivers topic job ht hj
    rw [ht, hstep] at hdeclines
    rw [hstep]
    exact calls topic args job horder hdeclines

namespace Sample

/-- Job 7 took the one running slot of the account when the host is made to refuse to hold a
job. -/
def stubborn : World Host := start.afterAll
  [.feed .accounts [record 1], .call .new .null (job 7), .call .new .null (job 8),
   .call .depend .null (job 7), .scheduler { armed := fun op => op == .addDependency }]

/-- The arguments of job 8. -/
def arguments : Json :=
  .ofEntries
    [("id", .ofUInt64 8), ("userid", .ofUInt32 key.userid),
     ("jobspec", .ofEntries [("attributes", .ofEntries
       [("system", .ofEntries [("bank", .string key.bank)])])])]

end Sample

/-- In the sample, job 8 cannot be held, and everything stays as it was, whether the throttle is
called or the event is dispatched. -/
theorem sample_failed_call :
    Sample.stubborn.Reached HostOrder ∧
      Sample.stubborn.HostOrder (.call .depend .null (Sample.job 8)) ∧
      (Sample.stubborn.step .depend .null (Sample.job 8)).outcome =
        .error (.fault (.dependencyAdd (.refused .addDependency))) ∧
      (Sample.stubborn.step .depend .null (Sample.job 8)).Intact Sample.stubborn.engine
        (Sample.stubborn.storage 8) ∧
      (Sample.stubborn.engine.dispatch Topic.depend.name Sample.arguments
        (Sample.stubborn.storage 8)).outcome =
        .error (.fault (.dependencyAdd (.refused .addDependency))) ∧
      (Sample.stubborn.engine.dispatch Topic.depend.name Sample.arguments
        (Sample.stubborn.storage 8)).Intact Sample.stubborn.engine (Sample.stubborn.storage 8) := by
  have reached : Sample.stubborn.Reached HostOrder :=
    ⟨Config.default, {}, none, _, by decide +kernel, rfl⟩
  have order : Sample.stubborn.HostOrder (.call .depend .null (Sample.job 8)) := by
    decide +kernel
  have refused : (Sample.stubborn.step .depend .null (Sample.job 8)).outcome =
      .error (.fault (.dependencyAdd (.refused .addDependency))) := by
    decide +kernel
  have read : Job.decode Sample.arguments = .ok (Sample.job 8) := by
    decide +kernel
  have delivers : Sample.stubborn.Delivers Topic.depend.name Sample.arguments
      (Sample.stubborn.storage 8) := by
    intro topic job ht hj
    cases ht
    cases read.symm.trans hj
    exact ⟨order, rfl⟩
  have answer : (Sample.stubborn.engine.dispatch Topic.depend.name Sample.arguments
      (Sample.stubborn.storage 8)).outcome =
      .error (.fault (.dependencyAdd (.refused .addDependency))) := by
    decide +kernel
  refine ⟨reached, order, refused, ?_, answer, ?_⟩
  · exact reached.failed_call_intact.1 _ _ _ order (by rw [refused]; rfl)
  · exact reached.failed_call_intact.2 _ _ _ delivers (by rw [answer]; rfl)

end World

end JobAdmission

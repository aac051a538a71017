import JobAdmission.Proofs.Accounted
import JobAdmission.Proofs.NoFaults
import JobAdmission.Proofs.Permanence
import JobAdmission.Proofs.PriorityHistory

/-!
# Calls that are made again

This module proves that a call which did its work for a live job counts nothing when it is made
once more (`World.redelivered`), whatever happened in between: the job may have been moved, held,
released or started, and its account may have been granted other terms. A job that was announced
is bound to an account, and if that is real, it counts the job already. A job that was given its
priority is bound to a real account and is not moved any more. A job that runs is counted as
running and has no slot that it could give up. Each of these lasts until the job leaves
(`World.Obeys.until_gone`), in runs in which the feed tells of no account in the placeholders' bank
(`World.TellingOrder`).
-/

namespace JobAdmission

/-- What an account counts of its jobs: the active ones, the running ones, and its gate. -/
def Account.counts (a : Account) : Counter × Counter × Gate :=
  (a.usage.active, a.usage.running, a.usage.gate)

/-- A job that is counted as running and has no slot is not counted again. -/
theorem Account.start_counts {a : Account} {j : JobId} {b : JobBinding}
    (running : b.countedRunning = true) (reserved : b.runReserved = false)
    (released : j ∉ a.usage.gate.released) : (a.start j b).counts = a.counts := by
  simp [start, counts, running, reserved, Gate.started, Gate.freeSlot_of_notMem released]

namespace Ledger

variable {l : Ledger} {a a' : Account} {k : AccountKey}

/-- The accounts are the same ones, and count the same. -/
def CountsAs (l l' : Ledger) : Prop :=
  ∀ k : AccountKey, (l'.account? k).map Account.counts = (l.account? k).map Account.counts

theorem CountsAs.refl (l : Ledger) : l.CountsAs l := fun _ => rfl

theorem countsAs_put {h : Handle} (ha : l.objects[h]? = some a) (own : a'.handle = a.handle)
    (same : a'.counts = a.counts) : l.CountsAs (l.put a') := by
  intro k
  rw [account?_put]
  split
  · rename_i hk
    rw [account?_of_handle? hk, own, l.own h a ha, ha, Option.map_some, Option.map_some, same]
  · rfl

end Ledger

/-! ### Steps that find their work done -/

namespace Engine

variable {H : Type} {e : Engine H} {job : Job} {s s' : JobStorage} {b : JobBinding} {a : Account}
  {rs : List HostRequest} {h host : H} {l ledger : Ledger}

/-- An account that counts the job already does not count it again. -/
theorem NewJobEffect.countsAs [Scheduler H] {byDefault : Bool} {outcome : Except HandlerError Unit}
    (effect : NewJobEffect h job l b byDefault s outcome rs host ledger s')
    (counted : ∀ a, l.objects[b.account]? = some a → a.isPlaceholder = false →
      b.countedActive = true) : l.CountsAs ledger := by
  cases effect with
  | rejected | placed | detached => exact .refl l
  | @enrolled a _ _ _ _ ha real =>
    rw [if_pos (counted a ha real)]
    exact Ledger.countsAs_put ha rfl rfl

/-- A job of a real account has its priority computed, and nothing else. -/
theorem PriorityEffect.ledger_of_real [Scheduler H] {outcome : Except HandlerError PriorityOutcome}
    (effect : PriorityEffect e job s outcome rs host ledger s')
    (hb : e.boundAccount s = some (b, a)) (real : a.isPlaceholder = false) :
    ledger = e.ledger := by
  cases effect with
  | unbound | prioritized | stayed => rfl
  | refused hb' hp | rebound hb' hp =>
    cases hb.symm.trans hb'
    simp [real] at hp

/-- A job that is told that there is no account for it yet leaves everything as it is. -/
theorem PriorityEffect.of_unavailable [Scheduler H]
    (effect : PriorityEffect e job s (.ok .unavailable) rs host ledger s') :
    ledger = e.ledger ∧ host = e.host ∧ s' = s := by
  generalize ho : Except.ok PriorityOutcome.unavailable = outcome at effect
  cases effect with
  | unbound | prioritized | stayed => exact ⟨rfl, rfl, rfl⟩
  | refused => cases ho
  | @rebound _ _ _ _ _ _ err => cases err <;> cases ho

/-- A job that runs already is not counted again. -/
theorem RunEffect.countsAs (effect : RunEffect e job s ledger s')
    (running : ∀ b a, e.boundAccount s = some (b, a) → b.countedRunning = true ∧
      b.runReserved = false ∧ job.id ∉ a.usage.gate.released) : e.ledger.CountsAs ledger := by
  cases effect with
  | unbound => exact .refl _
  | @started b a hb =>
    obtain ⟨counted, reserved, released⟩ := running b a hb
    exact Ledger.countsAs_put (boundAccount_eq_some.mp hb).2 rfl
      (Account.start_counts counted reserved released)

end Engine

/-! ### What lasts until a job leaves -/

namespace World

variable {H : Type} [Scheduler H] {w : World H} {ev : Event H} {es : List (Event H)} {j : JobId}
  {k : AccountKey} {a : Account} {topic again : Topic} {args : Json} {job : Job} {l : LiveJob}

/-- What every event keeps of a job that does not leave in it is kept until the job is gone. -/
theorem Obeys.until_gone {P : World H → Prop}
    (keep : ∀ w ev, w.Sound → w.HostOrder ev → P w → P (w.after ev) ∨ ev.leaving = some j)
    (h : w.Obeys HostOrder es) (hs : w.Sound) (hP : P w) :
    P (w.afterAll es) ∨ (w.afterAll es).Gone j := by
  refine (h.invariant (I := fun w => w.Sound ∧ (P w ∨ w.Gone j)) ?_ ⟨hs, .inl hP⟩).2
  rintro w ev ⟨hs, hP | gone⟩ h
  · refine ⟨hs.after h, (keep w ev hs h hP).imp_right fun leaving => ?_⟩
    exact hs.gone_of_leaving h leaving
  · exact ⟨hs.after h, .inr (gone_after h gone)⟩

/-- A job that is bound stays bound until it leaves. -/
theorem Sound.bound_after (hs : w.Sound) (h : w.HostOrder ev) (hj : ∃ k, w.accountOf j = some k) :
    (∃ k, (w.after ev).accountOf j = some k) ∨ ev.leaving = some j := by
  by_cases called : ev.job? = some j
  · cases ev with
    | feed | reprioritize | scheduler => cases called
    | call topic args job =>
      obtain rfl : job.id = j := Option.some.inj called
      by_cases leaves : topic = .inactive
      · exact .inr (by rw [leaves]; rfl)
      left
      obtain ⟨k, hk⟩ := hj
      obtain ⟨b, hb, rfl⟩ := Option.map_eq_some_iff.mp hk
      obtain ⟨l, hl⟩ := live_of_bound hb
      have storage := hs.storage_after_call h leaves
      obtain ⟨rs, -, binds⟩ := w.engine.stepOf_binds topic args job (w.storage job.id)
      have home : (w.storage job.id).binding.map JobBinding.account = some b.account := by
        rw [hb]
        rfl
      rw [accountOf_eq, handleOf, storage, step]
      cases binds with
      | kept same => exact ⟨b.account.key, congrArg (Option.map Handle.key) (same.trans home)⟩
      | freed ht =>
        rcases ht with rfl | rfl
        · exact absurd (hs.known job.id l hl) h
        · exact absurd rfl leaves
      | placed _ _ hk' | admitted _ _ hk' | moved _ _ _ _ hk' =>
        exact ⟨_, congrArg (Option.map Handle.key) hk'⟩
  · exact .inl (by rwa [accountOf_after_of_ne called])

/-- A job that runs is running until it leaves. -/
theorem Sound.running_after (hs : w.Sound) (h : w.HostOrder ev)
    (hj : ∃ l, w.live j = some l ∧ l.phase = .running) :
    (∃ l, (w.after ev).live j = some l ∧ l.phase = .running) ∨ ev.leaving = some j := by
  by_cases called : ev.job? = some j
  · cases ev with
    | feed | reprioritize | scheduler => cases called
    | call topic args job =>
      obtain rfl : job.id = j := Option.some.inj called
      obtain ⟨l, hl, hp⟩ := hj
      cases topic with
      | validate =>
        left
        rw [after_validate_live, Function.update_self]
        exact ⟨l, hl, hp⟩
      | new => exact absurd (hs.known job.id l hl) h
      | inactive => exact .inr rfl
      | depend | priority | priorityGet | run | updateQueue | queueUpdated =>
        left
        rw [after_call_live hl (by simp) (by simp) (by simp), Function.update_self]
        refine ⟨_, rfl, ?_⟩
        simp only [hp]
        rfl
  · exact .inl (by rwa [live_after_of_ne called])

/-- A job of a real account is one until it leaves. -/
theorem Sound.real_after_of_bound (hs : w.Sound) (h : w.HostOrder ev)
    (hj : ∃ k, w.accountOf j = some k ∧ ∃ a, w.account k = some a ∧ a.isPlaceholder = false) :
    (∃ k, (w.after ev).accountOf j = some k ∧
      ∃ a, (w.after ev).account k = some a ∧ a.isPlaceholder = false) ∨ ev.leaving = some j := by
  obtain ⟨k, hk, a, ha, real⟩ := hj
  exact (hs.accountOf_after h hk ha real).imp_left fun hk' =>
    ⟨k, hk', real_after ev ⟨a, ha, real⟩⟩

/-! ### Runs -/

end World

/-- The feed tells of no account in the placeholders' bank in this event. -/
def Event.SparesStandIns {H : Type} : Event H → Prop
  | .feed .accounts rows =>
    ∀ u ∈ accepted AccountRecord.readUpdate rows, u.key.bank ≠ Account.placeholderBank
  | _ => True

instance {H : Type} : DecidablePred (Event.SparesStandIns (H := H))
  | .feed .accounts _ => inferInstanceAs (Decidable (∀ u ∈ _, _))
  | .feed .queues _ | .feed .projects _ | .reprioritize | .scheduler _ | .call _ _ _ =>
    .isTrue trivial

namespace World

variable {H : Type} [Scheduler H] {w : World H} {ev : Event H} {es : List (Event H)} {j : JobId}
  {k : AccountKey} {a : Account} {topic again : Topic} {args : Json} {job : Job} {l : LiveJob}

/-- The host's order, where the feed tells of no account in the placeholders' bank. -/
def TellingOrder (w : World H) (ev : Event H) : Prop := w.HostOrder ev ∧ ev.SparesStandIns

instance (w : World H) : DecidablePred w.TellingOrder := fun ev =>
  inferInstanceAs (Decidable (w.HostOrder ev ∧ ev.SparesStandIns))

omit [Scheduler H] in
theorem TellingOrder.hostOrder (w : World H) (ev : Event H) (h : w.TellingOrder ev) :
    w.HostOrder ev := h.1

/-- What such runs keep: real accounts count their jobs and detach none, and placeholders are in
their own bank. -/
structure Orderly (w : World H) : Prop where
  sound : w.Sound
  undetached : w.engine.ledger.Undetached
  standIns : ∀ k a, w.account k = some a → a.isPlaceholder = true →
    k.bank = Account.placeholderBank
  counts : ∀ j k, (w.scene k).Counts j

omit [Scheduler H] in
theorem start_orderly (config : Config) (host : H) (audit : Option AuditTrail) :
    (start config host audit).Orderly where
  sound := start_sound config host audit
  undetached k a ha := by
    cases (account_start config host audit k).symm.trans ha
  standIns k a ha := by
    cases (account_start config host audit k).symm.trans ha
  counts j k a _ _ n hn := by
    cases hn

omit [Scheduler H] in
/-- The feed takes over no placeholder. -/
theorem Orderly.keepingOrder (hw : w.Orderly) (h : w.TellingOrder ev) (j : JobId) :
    KeepingOrder j w ev := by
  refine ⟨h.1, ?_⟩
  rintro ⟨k, -, told, a, ha, hp⟩
  apply told
  cases ev with
  | feed kind rows =>
    cases kind with
    | accounts =>
      rw [Event.granted, List.map_eq_nil_iff, List.filter_eq_nil_iff]
      rintro u hu hk
      obtain rfl : u.key = k := of_decide_eq_true hk
      exact h.2 u hu (hw.standIns _ a ha hp)
    | queues | projects => rfl
  | reprioritize | scheduler | call => rfl

theorem Orderly.after (hw : w.Orderly) (h : w.TellingOrder ev) : (w.after ev).Orderly where
  sound := hw.sound.after h.1
  undetached := undetached_after hw.undetached h.1
  standIns := standIns_after hw.standIns
  counts j := hw.sound.counts_after (hw.keepingOrder h j) (hw.counts j)

theorem Obeys.orderly (h : w.Obeys TellingOrder es) (hw : w.Orderly) : (w.afterAll es).Orderly :=
  h.invariant (fun _ _ hw h => hw.after h) hw

/-! ### The first time -/

/-- A job that was announced with success is bound. -/
theorem Orderly.bound_of_new (hw : w.Orderly) (h : w.TellingOrder (.call .new args job))
    {reply : Reply} (ho : (w.step .new args job).outcome = .ok reply) :
    ∃ k, (w.after (.call .new args job)).accountOf job.id = some k := by
  have undetached := (hw.after h).undetached
  have storage := hw.sound.storage_after_call h.1 (by simp)
  obtain ⟨_, ho, -⟩ := Step.outcome_map_eq_ok.mp ho
  obtain ⟨rs, effect⟩ := w.engine.newJob_effect job (w.storage job.id)
  change (w.engine.newJob job (w.storage job.id)).engine.ledger.Undetached at undetached
  change _ = (w.engine.newJob job (w.storage job.id)).storage at storage
  rw [accountOf, storage]
  generalize (w.engine.newJob job (w.storage job.id)).outcome = outcome at effect ho
  generalize (w.engine.newJob job (w.storage job.id)).storage = s' at effect
  generalize (w.engine.newJob job (w.storage job.id)).engine.ledger = ledger at effect undetached
  generalize (w.engine.newJob job (w.storage job.id)).engine.host = host at effect
  cases effect with
  | rejected => cases ho
  | placed | enrolled => exact ⟨_, rfl⟩
  | detached ha real detaches =>
    have keyed := hw.sound.keyed.of_growsTo (w.engine.growsTo_startBinding job (w.storage job.id))
    exact absurd detaches (undetached _ _ (keyed.kept ha) real)

/-- A job that was given its priority is bound to a real account. -/
theorem real_of_value (hs : (w.after (.call topic args job)).Sound)
    (hl : w.live job.id = some l) {value : Int64}
    (hv : (w.step topic args job).outcome = .ok (.priority value)) :
    ∃ k, (w.after (.call topic args job)).accountOf job.id = some k ∧
      ∃ a, (w.after (.call topic args job)).account k = some a ∧ a.isPlaceholder = false := by
  obtain ⟨b, a, hb, ha, real⟩ := real_after_of_value hl hv
  refine ⟨b.account.key, ?_, a, hs.keyed.kept ha, real⟩
  rw [accountOf, hb]
  rfl

/-- A job that is due to run runs then. -/
theorem running_of_run (h : w.HostOrder (.call .run args job)) :
    ∃ l, (w.after (.call .run args job)).live job.id = some l ∧ l.phase = .running := by
  obtain ⟨l, hl, due⟩ := h
  have ready : l.phase = .ready := by simpa [Phase.admits] using due.phase
  rw [after_call_live hl (by simp) (by simp) (by simp), Function.update_self]
  refine ⟨_, rfl, ?_⟩
  simp only [ready]
  rfl

/-! ### The second time -/

/-- A job that is bound is not counted again when it is announced again. -/
theorem Orderly.new_again (hw : w.Orderly) (hj : ∃ k, w.accountOf job.id = some k) :
    w.engine.ledger.CountsAs (w.after (.call .new args job)).engine.ledger := by
  obtain ⟨k, hk⟩ := hj
  obtain ⟨b, hb, rfl⟩ := Option.map_eq_some_iff.mp hk
  obtain ⟨l, hl⟩ := live_of_bound hb
  obtain ⟨rs, effect⟩ := w.engine.newJob_effect job (w.storage job.id)
  rw [w.engine.startBinding_of_bound job hb] at effect
  refine effect.countsAs fun a ha real => ?_
  rw [storage_of_live hl] at hb
  exact hw.counts job.id b.account.key a (hw.sound.keyed.kept ha) real _
    (scene_member_of_binding hl hb)

/-- A job of a real account that asks for its priority changes no account. -/
theorem Sound.ledger_of_priority_again (hs : w.Sound)
    (ht : topic = .priority ∨ topic = .priorityGet)
    (hj : ∃ k, w.accountOf job.id = some k ∧
      ∃ a, w.account k = some a ∧ a.isPlaceholder = false) :
    (w.after (.call topic args job)).engine.ledger = w.engine.ledger := by
  obtain ⟨k, hk, a, ha, real⟩ := hj
  obtain ⟨b, hb, rfl⟩ := Option.map_eq_some_iff.mp hk
  obtain ⟨l, hl⟩ := live_of_bound hb
  rw [storage_of_live hl] at hb
  obtain ⟨rs, effect⟩ := w.engine.priority_effect job (w.storage job.id)
  rw [storage_of_live hl] at effect
  have same := effect.ledger_of_real (hs.boundAccount hl hb ha) real
  rw [← storage_of_live hl] at same
  rcases ht with rfl | rfl <;> exact same

/-- A job that runs is not counted again when it runs again. -/
theorem Sound.run_again (hs : w.Sound) (hj : ∃ l, w.live job.id = some l ∧ l.phase = .running) :
    w.engine.ledger.CountsAs (w.after (.call .run args job)).engine.ledger := by
  obtain ⟨l, hl, hp⟩ := hj
  have effect := w.engine.run_effect job (w.storage job.id)
  refine effect.countsAs fun b a hb => ?_
  rw [storage_of_live hl] at hb
  obtain ⟨hb, ha⟩ := hs.bound hl hb
  have fits := ((hs.scenes b.account.key).books a ha).fits job.id _ (scene_member_of_binding hl hb)
  have counted : b.countedRunning = true := fits.counted.mpr hp
  refine ⟨counted, fits.running hp, fun released => ?_⟩
  have idle : b.countedRunning = false := (fits.released released).2
  simp [counted] at idle

/-! ### Jobs without an account -/

/-- Only a job that asks for its priority is told that there is no account for it. -/
theorem priority_of_unavailable (ho : (w.step topic args job).outcome = .ok .unavailable) :
    (topic = .priority ∨ topic = .priorityGet) ∧
      (w.engine.priority job (w.storage job.id)).outcome = .ok .unavailable := by
  cases topic with
  | priority | priorityGet =>
    obtain ⟨outcome, ho, given⟩ := Step.outcome_map_eq_ok.mp ho
    cases outcome with
    | value v => cases given
    | unavailable => exact ⟨by simp, ho⟩
  | depend =>
    obtain ⟨outcome, -, given⟩ := Step.outcome_map_eq_ok.mp ho
    cases outcome <;> cases given
  | validate | new | run | inactive | updateQueue | queueUpdated =>
    obtain ⟨_, -, given⟩ := Step.outcome_map_eq_ok.mp ho
    cases given

/-- A job that is told that there is no account for it changes nothing. -/
theorem still_of_unavailable (ho : (w.step topic args job).outcome = .ok .unavailable) :
    (w.after (.call topic args job)).engine.ledger = w.engine.ledger ∧
      (w.after (.call topic args job)).engine.host = w.engine.host ∧
      ∀ j, (w.after (.call topic args job)).storage j = w.storage j := by
  obtain ⟨ht, ho⟩ := priority_of_unavailable ho
  obtain ⟨rs, effect⟩ := w.engine.priority_effect job (w.storage job.id)
  rw [ho] at effect
  obtain ⟨ledger, host, storage⟩ := effect.of_unavailable
  have engine : (w.after (.call topic args job)).engine =
      (w.engine.priority job (w.storage job.id)).engine := by
    rcases ht with rfl | rfl <;> rfl
  rw [engine]
  refine ⟨ledger, host, fun j => ?_⟩
  by_cases hj : job.id = j
  · subst hj
    cases hl : w.live job.id with
    | none =>
      have gone : (w.after (.call topic args job)).live job.id = none := by
        rcases ht with rfl | rfl <;> simp [live_after_call, liveAfter, hl]
      rw [World.storage, gone, World.storage, hl]
    | some l =>
      rw [(after_priority args ht hl).1, ← storage_of_live hl]
      exact storage
  · rw [World.storage, live_after_of_ne (by simpa [Event.job?] using hj), ← World.storage]

/-! ### Redelivery -/

end World

namespace Topic

/-- With this answer, a call did its work: the job is announced, was given its priority, or
runs. -/
def Did : Topic → Except HandlerError Reply → Prop
  | .new, .ok _ | .run, .ok _ => True
  | .priority, .ok (.priority _) | .priorityGet, .ok (.priority _) => True
  | _, _ => False

/-- The topic under which a step is known; a job asks for its priority under two. -/
def stepName : Topic → Topic
  | .priorityGet => .priority
  | topic => topic

variable {topic again : Topic} {outcome : Except HandlerError Reply}

theorem priority_of_stepName (h : again.stepName = .priority) :
    again = .priority ∨ again = .priorityGet := by
  cases again <;> simp_all [stepName]

theorem value_of_did (ht : topic = .priority ∨ topic = .priorityGet) (h : topic.Did outcome) :
    ∃ value, outcome = .ok (.priority value) := by
  rcases ht with rfl | rfl
  all_goals
    rcases outcome with err | _ | _ | value | _ | _
    all_goals first | exact h.elim | exact ⟨value, rfl⟩

end Topic

namespace World

variable {H : Type} [Scheduler H] {w : World H} {es : List (Event H)}

/-- What a call that did its work leaves behind for a live job: a call like it counts nothing. -/
theorem Orderly.again (hw : w.Orderly) {topic : Topic} {args : Json} {job : Job}
    (h : w.TellingOrder (.call topic args job)) (did : topic.Did (w.step topic args job).outcome)
    (later : (w.after (.call topic args job)).Obeys TellingOrder es) {w' : World H}
    (hw' : (w.after (.call topic args job)).afterAll es = w') {l : LiveJob}
    (live : w'.live job.id = some l) {again : Topic} (same : again.stepName = topic.stepName) :
    w'.engine.ledger.CountsAs (w'.after (.call again args job)).engine.ledger := by
  have hw₁ := hw.after h
  have hw₂ : w'.Orderly := hw' ▸ later.orderly hw₁
  have order := later.mono TellingOrder.hostOrder
  have lasts : ∀ {P : World H → Prop}, (∀ w ev, w.Sound → w.HostOrder ev → P w →
      P (w.after ev) ∨ ev.leaving = some job.id) → P (w.after (.call topic args job)) → P w' := by
    intro P keep hP
    rcases order.until_gone keep hw₁.sound hP with hP | gone
    · exact hw' ▸ hP
    · rw [hw'] at gone
      cases gone.2.symm.trans live
  cases topic with
  | validate | depend | inactive | updateQueue | queueUpdated => exact did.elim
  | new =>
    cases again <;> cases same
    cases ho : (w.step .new args job).outcome with
    | error err =>
      rw [ho] at did
      exact did.elim
    | ok reply =>
      exact hw₂.new_again (lasts (fun _ _ hs h hP => hs.bound_after h hP) (hw.bound_of_new h ho))
  | run =>
    cases again <;> cases same
    exact hw₂.sound.run_again
      (lasts (fun _ _ hs h hP => hs.running_after h hP) (running_of_run h.1))
  | priority | priorityGet =>
    obtain ⟨value, hv⟩ := Topic.value_of_did (by simp) did
    obtain ⟨l₀, hl₀⟩ := live_of_priority (by simp) h.1
    have real := lasts (fun _ _ hs h hP => hs.real_after_of_bound h hP)
      (real_of_value hw₁.sound hl₀ hv)
    rw [hw₂.sound.ledger_of_priority_again (Topic.priority_of_stepName same) real]
    exact .refl _

/-- In a run in which the feed tells of no account in the placeholders' bank, a call that did its
work for a live job can be made once more: every account counts its jobs as before, the active and
the running ones, and its gate is the same. And whenever a job is told that there is no account for
it yet, no account, no job and nothing of the host changes. -/
theorem redelivered (config : Config) (host : H) (audit : Option AuditTrail)
    (h : (start config host audit).Obeys TellingOrder es)
    (hw : (start config host audit).afterAll es = w) :
    (∀ before topic args job after, es = before ++ .call topic args job :: after →
      topic.Did (((start config host audit).afterAll before).step topic args job).outcome →
      (w.live job.id).isSome = true →
      ∀ again : Topic, again.stepName = topic.stepName → ∀ k,
        ((w.after (.call again args job)).account k).map Account.counts =
          (w.account k).map Account.counts) ∧
    ∀ topic args job, (w.step topic args job).outcome = .ok .unavailable →
      (w.after (.call topic args job)).engine.ledger = w.engine.ledger ∧
      (w.after (.call topic args job)).engine.host = w.engine.host ∧
      ∀ j, (w.after (.call topic args job)).storage j = w.storage j := by
  constructor
  · rintro before topic args job after rfl did live again same k
    obtain ⟨first, call, later⟩ := obeys_append.mp h
    rw [afterAll_append] at hw
    obtain ⟨l, hl⟩ := Option.isSome_iff_exists.mp live
    exact (first.orderly (start_orderly config host audit)).again call did later hw hl same k
  · exact fun topic args job ho => still_of_unavailable ho

/-! ### A sample -/

namespace Sample

/-- Two jobs come to an account with one running slot, one of them runs and the other one is held,
and then a job of another user waits at a placeholder. -/
def visited : List (Event Host) :=
  events ++ [.call .new .null stranger, .call .depend .null stranger]

end Sample

theorem sample_redelivered :
    (∀ k, (((Sample.start.afterAll Sample.visited).after (.call .run .null (Sample.job 7))).account
        k).map Account.counts =
      ((Sample.start.afterAll Sample.visited).account k).map Account.counts) ∧
    ∀ j, ((Sample.start.afterAll Sample.visited).after
        (.call .priority .null Sample.stranger)).storage j =
      (Sample.start.afterAll Sample.visited).storage j := by
  have obeys : (start Config.default ({} : Host) none).Obeys TellingOrder Sample.visited := by
    decide +kernel
  obtain ⟨again, unavailable⟩ := redelivered Config.default ({} : Host) none obeys rfl
  constructor
  · have split : Sample.visited =
        Sample.visited.take 6 ++ .call .run .null (Sample.job 7) :: Sample.visited.drop 7 := by
      simp [Sample.visited, Sample.events]
    have accepted : (((start Config.default ({} : Host) none).afterAll
        (Sample.visited.take 6)).step .run .null (Sample.job 7)).outcome = .ok .accepted := by
      decide +kernel
    have live : (((start Config.default ({} : Host) none).afterAll Sample.visited).live
        (Sample.job 7).id).isSome = true := by decide +kernel
    refine again _ .run .null (Sample.job 7) _ split ?_ live .run rfl
    rw [accepted]
    trivial
  · have told : (((start Config.default ({} : Host) none).afterAll Sample.visited).step .priority
        .null Sample.stranger).outcome = .ok .unavailable := by decide +kernel
    exact (unavailable .priority .null Sample.stranger told).2.2

end World

end JobAdmission

import JobAdmission.Proofs.Agreement
import JobAdmission.Proofs.Binding
import JobAdmission.Proofs.LateBinding

/-!
# No faults after validation

Validation and announcement look an account up each for itself and judge the job each for
itself, and validation may create the placeholder that the announcement finds. This module
proves that they agree, and that nothing goes wrong with the job afterwards
(`World.no_faults`): a job that validation accepts is not rejected when it is announced next,
and as long as the feed tells nothing and the host refuses nothing, every call by which the
job goes its way is answered without an error, whatever happens to other jobs in between. It
is told that there is no account yet exactly while it is bound to a placeholder.

An admitted job has a home (`World.Lodged`): the account that it is bound to is there, and if
that is a placeholder, no real account can be found for the job before the feed tells of one.
-/

namespace JobAdmission

/-- The calls by which a live job goes its way. -/
def Topic.isStage : Topic → Bool
  | .depend | .priority | .priorityGet | .run | .inactive => true
  | .validate | .new | .updateQueue | .queueUpdated => false

/-! ### Refusals -/

namespace Host

variable {h h' : Host} {r : HostRequest} {rs : List HostRequest} {err : HostError}

/-- The host was made to refuse a kind of requests and is so no longer: it refused one. -/
def Spent (h h' : Host) : Prop := ∃ op, h.armed op = true ∧ h'.armed op = false

instance (h h' : Host) : Decidable (h.Spent h') :=
  decidable_of_iff
    (∃ op ∈ [HostOp.updateJobspec, .addDependency, .removeDependency, .reprioritize],
      h.armed op = true ∧ h'.armed op = false)
    ⟨fun ⟨op, _, hop⟩ => ⟨op, hop⟩, fun ⟨op, hop⟩ => ⟨op, by cases op <;> simp, hop⟩⟩

theorem spent_of_armed {answer : Option HostError} (harmed : h.armed r.op = true)
    (hr : h.request r = (answer, h')) : h.Spent h' := by
  rw [request, if_pos harmed] at hr
  cases hr
  exact ⟨r.op, harmed, by simp [disarm]⟩

theorem spent_of_refused (hobj : h.objection r = none) (hr : h.request r = (some err, h')) :
    h.Spent h' := by
  by_cases harmed : h.armed r.op = true
  · exact spent_of_armed harmed hr
  · rw [request, if_neg harmed, hobj] at hr
    cases hr

/-- If one of some requests is refused, the host was made to. -/
theorem spent_of_serve (hrs : ∀ r ∈ rs, r.removed? = none)
    (hserve : Scheduler.serve h rs = (some err, h')) : h.Spent h' := by
  induction rs generalizing h with
  | nil => cases hserve
  | cons r rs ih =>
    rw [Scheduler.serve] at hserve
    split at hserve
    · rename_i hr
      cases hserve
      exact spent_of_refused (objection_eq_none (hrs r List.mem_cons_self)) hr
    · rename_i hr
      -- an accepted request leaves alone what the host is to refuse
      obtain rfl := eq_accept_of_request hr
      exact ih (h := h.accept r) (fun r hr => hrs r (List.mem_cons_of_mem _ hr)) hserve

end Host

/-! ### Admission -/

/-- No real account detaches its jobs. -/
def Ledger.Undetached (l : Ledger) : Prop :=
  ∀ (k : AccountKey) (a : Account), l.account? k = some a → a.isPlaceholder = false →
    a.terms.runLimit ≠ .detached

namespace Engine

section Admission

variable {H : Type} {e : Engine H} {job : Job} {s : JobStorage} {a : Account}

/-- A new job would be admitted: it would wait at a placeholder, or there is an account that
permits its queue and has room. -/
def Admits (e : Engine H) (job : Job) : Prop :=
  e.ledger.Unresolved job.userid job.bank ∨
    ∃ a, e.ledger.lookup job.userid job.bank = .found a ∧
      e.queueFactor? a job.queue ≠ none ∧ a.atActiveLimit = false

theorem room_of_objection (hstate : job.state = .new) (h : e.objection job a = none) :
    e.queueFactor? a job.queue ≠ none ∧ a.atActiveLimit = false := by
  unfold objection at h
  split at h
  · cases h
  · split at h
    · cases h
    · rename_i hq
      refine ⟨hq, ?_⟩
      split at h
      · cases h
      · split at h
        · cases h
        · split at h
          · cases h
          · rename_i room
            simpa [hstate] using room

/-- A new job that validation accepts would be admitted then. -/
theorem admits_of_validate (hstate : job.state = .new) (hok : (e.validate job s).outcome = .ok ()) :
    (e.validate job s).engine.Admits job := by
  cases hl : e.ledger.lookup job.userid job.bank with
  | placeholder p =>
    simp only [validate, hl]
    exact .inl (.inr ⟨p, hl⟩)
  | notFound =>
    simp only [validate, hl] at hok ⊢
    split
    · rename_i only
      have unresolved : e.ledger.Unresolved job.userid job.bank := .inl only
      exact .inl (unresolved.of_growsTo (Ledger.growsTo_ensurePlaceholder ..))
    · rename_i told
      rw [if_neg told] at hok
      cases hok
  | found a =>
    simp only [validate, hl] at hok ⊢
    split
    · rename_i hobj
      rw [hobj] at hok
      cases hok
    · rename_i hobj
      exact .inr ⟨a, hl, room_of_objection hstate hobj⟩

/-- A job for which no real account can be found starts at a placeholder. -/
theorem placeholder_of_startBinding (hs : s.binding = none)
    (h : e.ledger.Unresolved job.userid job.bank) : ∃ p,
      (e.startBinding job s).2.2.ledger.objects[(e.startBinding job s).1.account]? = some p ∧
        p.isPlaceholder = true := by
  obtain ⟨a, hf, -⟩ | ⟨p, hl, start⟩ | ⟨hl, start⟩ := e.startBinding_cases job hs
  · exact absurd hf (h.ne_found a)
  · rw [start]
    exact ⟨p, Ledger.object_of_account? (Ledger.account?_of_lookup (.inr hl)).1,
      Ledger.isPlaceholder_of_lookup hl⟩
  · rw [start]
    simp only [ensurePlaceholder, note_ledger]
    rw [Ledger.object_of_placeholderHandle, Ledger.account?_ensurePlaceholder]
    split
    · exact ⟨_, rfl, rfl⟩
    · rename_i there
      obtain ⟨p, hp⟩ := Option.ne_none_iff_exists'.mp fun hnone => there ⟨rfl, hnone⟩
      exact ⟨p, hp, Ledger.onlyPlaceholders_iff.mp (h.only_of_notFound hl) _ p hp⟩

end Admission

/-! ### Steps without faults -/

section Steps

variable {H : Type} [Scheduler H] {e : Engine H} {job : Job} {s s' : JobStorage}
  {h h' : H} {l l' : Ledger} {rs : List HostRequest} {b : JobBinding} {a : Account}

theorem NewJobEffect.of_placeholder {byDefault : Bool} {outcome : Except HandlerError Unit}
    (effect : NewJobEffect h job l b byDefault s outcome rs h' l' s')
    (ha : l.objects[b.account]? = some a) (hp : a.isPlaceholder = true) :
    outcome = .ok () ∧ h' = h ∧ l' = l ∧ s' = { s with binding := some b } := by
  cases effect with
  | rejected away =>
    obtain ⟨real, -⟩ := away a ha
    simp [hp] at real
  | placed => exact ⟨rfl, rfl, rfl, rfl⟩
  | detached ha' real | enrolled ha' real =>
    cases ha.symm.trans ha'
    simp [hp] at real

/-- The announcement of a job that would be admitted fails only if the scheduler refuses to
change its specification. The job is bound to an account then, to a placeholder only if no
real account can be found for it. -/
theorem Admits.newJob (hadm : e.Admits job) (undetached : e.ledger.Undetached) : ∃ err ps b a,
      (e.newJob job {}).outcome = patchAnswer () err ∧
      Scheduler.serve e.host (patchRequests job ps) = (err, (e.newJob job {}).engine.host) ∧
      (e.newJob job {}).storage.binding = some b ∧
      (e.newJob job {}).engine.ledger.objects[b.account]? = some a ∧
      (a.isPlaceholder = true → e.ledger.Unresolved job.userid job.bank) := by
  obtain ⟨rs, effect⟩ := e.newJob_effect job {}
  rcases hadm with unresolved | ⟨a, hf, hqueue, room⟩
  · obtain ⟨p, hp, placeholder⟩ := placeholder_of_startBinding (s := {}) rfl unresolved
    obtain ⟨ho, hh, hl, hs⟩ := effect.of_placeholder hp placeholder
    refine ⟨none, [], _, p, ho, ?_, congrArg JobStorage.binding hs, ?_, fun _ => unresolved⟩
    · rw [hh]
      rfl
    · rw [hl]
      exact hp
  · rw [startBinding_of_found rfl hf] at effect
    have ha := (Ledger.account?_of_lookup (.inl hf)).1
    have real := Ledger.isPlaceholder_of_found hf
    obtain ⟨factor, hq⟩ := Option.ne_none_iff_exists'.mp hqueue
    rcases hserve : Scheduler.serve e.host
      (patchRequests job (givenPatches job a job.bank.isNone)) with ⟨err, host⟩
    obtain ⟨ho, hh, hl, hs⟩ := effect.of_room (Ledger.object_of_account? ha) real
      (undetached _ a ha real) room hq rfl hserve
    refine ⟨err, givenPatches job a job.bank.isNone, _, a.countActive.withQueueFactor factor, ho,
      ?_, congrArg JobStorage.binding hs, ?_, fun placeholder => ?_⟩
    · rw [hh]
      exact hserve
    · rw [hl]
      exact (Ledger.getElem?_objects_put_of_mem (b := a.countActive.withQueueFactor factor)
        (Ledger.object_of_account? ha) rfl _).trans (if_pos rfl)
    · change a.isPlaceholder = true at placeholder
      simp [real] at placeholder

/-- A job that is bound to an account is given its priority, or is told that there is no
account yet if it is bound to a placeholder and no real account can be found for it. -/
theorem PriorityEffect.of_bound {outcome : Except HandlerError PriorityOutcome}
    (effect : PriorityEffect e job s outcome rs h' l' s') (hb : e.boundAccount s = some (b, a))
    (hu : a.isPlaceholder = true → e.ledger.Unresolved job.userid job.bank) :
    ∃ answer, outcome = .ok answer ∧ (answer = .unavailable ↔ a.isPlaceholder = true) := by
  cases effect with
  | unbound hb' => simp [hb] at hb'
  | prioritized hb' hp =>
    cases hb.symm.trans hb'
    exact ⟨_, rfl, by simp [hp]⟩
  | stayed hb' hp why =>
    cases hb.symm.trans hb'
    cases why with
    | waiting | early => exact ⟨_, rfl, by simp [hp]⟩
    | unresolvable hl told => simp [(hu hp).only_of_notFound hl] at told
    | invalidQueue hf => exact absurd hf ((hu hp).ne_found _)
  | refused hb' hp hf | rebound hb' hp hf =>
    cases hb.symm.trans hb'
    exact absurd hf ((hu hp).ne_found _)

omit [Scheduler H] in
theorem run_of_bound (hb : e.boundAccount s = some (b, a)) : (e.run job s).outcome = .ok () := by
  rw [run, hb]
  rfl

end Steps

section Refusals

variable {e : Engine Host} {job : Job} {s s' : JobStorage} {h' : Host} {l' : Ledger}
  {rs : List HostRequest} {b : JobBinding} {a : Account}

/-- The throttle fails on a job that is bound to an account only if the host is made to refuse
to hold it. -/
theorem DependEffect.ok_or_spent {outcome : Except HandlerError DependOutcome}
    (effect : DependEffect e job s outcome rs h' l' s') (hb : e.boundAccount s = some (b, a)) :
    (∃ answer, outcome = .ok answer) ∨ e.host.Spent h' := by
  cases effect with
  | unbound hb' => simp [hb] at hb'
  | waved | admitted | held => exact .inl ⟨_, rfl⟩
  | refused _ _ _ hreq => exact .inr (Host.spent_of_refused rfl hreq)

/-- The leaving of a job that is bound to an account fails only if the host is made to refuse to
release a job, if it refuses no release of its own. -/
theorem InactiveEffect.ok_or_spent {outcome : Except HandlerError Unit}
    (effect : InactiveEffect e job s outcome rs h' l' s') (hb : e.boundAccount s = some (b, a))
    (made : ∀ err, outcome = .error (.fault (.dependencyRemove err)) →
      e.host.armed .removeDependency = true) :
    outcome = .ok () ∨ e.host.Spent h' := by
  cases effect with
  | unbound hb' => simp [hb] at hb'
  | left | freed | released => exact .inl rfl
  | @kept _ _ _ _ next _ _ _ _ _ hreq =>
    exact .inr (Host.spent_of_armed (r := .removeDependency next heldLabel) (made _ rfl) hreq)

end Refusals

end Engine

/-! ### Runs -/

namespace World

/-- The job is bound to a placeholder. -/
def onPlaceholder {H : Type} (w : World H) (j : JobId) : Bool :=
  (w.engine.boundAccount (w.storage j)).any fun (_, a) => a.isPlaceholder

/-- In this event, the host refuses nothing that it is made to refuse. -/
def Spares (w : World Host) : Event Host → Prop
  | .scheduler _ => True
  | ev => ¬ w.engine.host.Spent (w.after ev).engine.host

/-- The host's order, where the host changes of its own only what it wrote down and what it is
made to refuse, the feed tells nothing, and the host refuses nothing that it is made to. -/
def CalmOrder (w : World Host) (ev : Event Host) : Prop :=
  w.RecordingOrder ev ∧ ev.isFeed = false ∧ w.Spares ev

instance (w : World Host) : DecidablePred w.Spares
  | .scheduler _ => .isTrue trivial
  | .feed kind rows =>
    inferInstanceAs (Decidable (¬ w.engine.host.Spent (w.after (.feed kind rows)).engine.host))
  | .reprioritize =>
    inferInstanceAs (Decidable (¬ w.engine.host.Spent (w.after .reprioritize).engine.host))
  | .call topic args job =>
    inferInstanceAs
      (Decidable (¬ w.engine.host.Spent (w.after (.call topic args job)).engine.host))

instance (w : World Host) : DecidablePred w.CalmOrder := fun ev =>
  inferInstanceAs (Decidable (w.RecordingOrder ev ∧ ev.isFeed = false ∧ w.Spares ev))

section Lodged

variable {H : Type} {w : World H} {ev : Event H} {j : JobId} {k : AccountKey}

/-- No event in the host's order grants terms that detach jobs. -/
theorem HostOrder.granted_ne_detached [Scheduler H] (h : w.HostOrder ev) :
    ∀ terms ∈ ev.granted k, terms.runLimit ≠ .detached := by
  intro terms hterms
  cases ev with
  | feed kind rows =>
    cases kind with
    | accounts =>
      obtain ⟨u, hu, rfl⟩ := List.mem_map.mp hterms
      exact h u (List.mem_filter.mp hu).1
    | queues | projects => cases hterms
  | reprioritize | scheduler | call => cases hterms

theorem undetached_after [Scheduler H] (hu : w.engine.ledger.Undetached)
    (h : w.HostOrder ev) : (w.after ev).engine.ledger.Undetached := by
  intro k a ha real
  obtain ⟨kind, rows, rfl⟩ | grows := w.feed_or_growsTo ev
  · change (w.after (.feed kind rows)).account k = some a at ha
    rw [account_after_feed] at ha
    split at ha
    · exact hu k a ha real
    · rename_i terms hlast
      have granted := h.granted_ne_detached terms (List.mem_of_getLast? hlast)
      cases ha
      cases w.account k with
      | none => exact granted
      | some a => exact granted
  · obtain ⟨a₀, ha₀, usage, rfl⟩ := grows.real ha real
    exact hu k a₀ ha₀ real

/-- The job was announced, and while it is live, it is bound to an account that is there. If that
is a placeholder, no real account can be found for the job yet. -/
structure Lodged (w : World H) (j : JobId) : Prop where
  announced : j ∈ w.arrived
  home : ∀ l, w.live j = some l → ∃ k a, w.accountOf j = some k ∧ w.account k = some a ∧
    (a.isPlaceholder = true → w.engine.ledger.Unresolved l.userid l.bank)

/-- A job stays bound to its account until it leaves, if it has a home. -/
theorem Lodged.accountOf_after [Scheduler H] (hj : w.Lodged j) (hw : w.engine.ledger.Keyed)
    (h : w.HostOrder ev) {l l' : LiveJob} (hl : w.live j = some l)
    (hl' : (w.after ev).live j = some l') : (w.after ev).accountOf j = w.accountOf j := by
  by_cases hother : ev.job? = some j
  · cases ev with
    | feed | reprioritize | scheduler => cases hother
    | call topic args job =>
      obtain rfl : job.id = j := Option.some.inj hother
      obtain ⟨rs, -, binds⟩ := w.engine.stepOf_binds topic args job l.storage
      cases topic with
      | validate =>
        have storage : (w.after (.call .validate args job)).storage job.id = l.storage := by
          rw [storage, after_validate_live, Function.update_self, hl]
          rfl
        rw [accountOf, accountOf, storage, storage_of_live hl]
      | new => exact absurd hj.announced h
      | inactive => simp [after_inactive_live] at hl'
      | depend | priority | priorityGet | run | updateQueue | queueUpdated =>
        rw [accountOf_eq, accountOf_eq, handleOf, handleOf,
          after_call_storage hl (by simp) (by simp) (by simp), storage_of_live hl]
        cases binds with
        | kept same => exact congrArg (Option.map Handle.key) same
        | freed ht => simp at ht
        | placed ht | admitted ht => cases ht
        | moved _ hb hp hf =>
          -- no real account can be found for a job of a placeholder
          obtain ⟨l₀, hl₀, due⟩ := h
          cases hl.symm.trans hl₀
          obtain ⟨k, a, hk, ha, hu⟩ := hj.home l hl
          obtain ⟨hb, hacc⟩ := Engine.boundAccount_eq_some.mp hb
          cases hk.symm.trans (accountOf_of_binding hl hb)
          cases ha.symm.trans (hw.kept hacc)
          rw [due.userid, due.bank] at hu
          exact absurd hf ((hu hp).ne_found _)
  · exact accountOf_after_of_ne hother

/-- A job keeps its home as long as the feed tells nothing. -/
theorem Lodged.after [Scheduler H] (hj : w.Lodged j) (hw : w.engine.ledger.Keyed)
    (h : w.HostOrder ev) (quiet : ev.isFeed = false) : (w.after ev).Lodged j where
  announced := arrived_subset_after hj.announced
  home l' hl' := by
    cases hl : w.live j with
    | none =>
      have gone := (gone_after h ⟨hj.announced, hl⟩).2
      cases gone.symm.trans hl'
    | some l =>
      obtain ⟨k, a, hk, ha, hu⟩ := hj.home l hl
      have grows := w.growsTo_after quiet
      obtain ⟨a', ha', usage, rfl⟩ := grows.stays k a ha
      obtain ⟨huser, hbank⟩ := user_of_live_after hl hl'
      rw [← huser, ← hbank] at hu
      exact ⟨k, _, (hj.accountOf_after hw h hl hl').trans hk, ha', fun hp =>
        (hu hp).of_growsTo grows⟩

end Lodged

section Steady

variable {w : World Host} {ev : Event Host} {es : List (Event Host)} {j : JobId}
  {topic : Topic} {args : Json} {job : Job}

/-- What runs over a recording host keep. -/
structure Steady (w : World Host) : Prop where
  sound : w.Sound
  outstanding : w.Outstanding
  undetached : w.engine.ledger.Undetached

theorem start_steady (config : Config) {host : Host} (audit : Option AuditTrail)
    (hempty : host.dependencies = ∅) : (start config host audit).Steady where
  sound := start_sound config host audit
  outstanding j _ := by
    have nothing : host.hasDependency j heldLabel = false := by simp [Host.hasDependency, hempty]
    simp only [held_start, List.not_mem_nil, exists_false, iff_false, Bool.not_eq_true]
    exact nothing
  undetached k a ha := by
    cases (account_start config host audit k).symm.trans ha

theorem Steady.after (hw : w.Steady) (h : w.RecordingOrder ev) : (w.after ev).Steady where
  sound := hw.sound.after (h.hostOrder w ev)
  outstanding := hw.outstanding.after hw.sound h
  undetached := undetached_after hw.undetached (h.hostOrder w ev)

theorem Obeys.steady (h : w.Obeys RecordingOrder es) (hw : w.Steady) : (w.afterAll es).Steady :=
  h.invariant (fun _ _ hw h => hw.after h) hw

/-- A job keeps its home throughout a calm run. -/
theorem Obeys.lodged (h : w.Obeys CalmOrder es) (hw : w.Steady) (hj : w.Lodged j) :
    (w.afterAll es).Steady ∧ (w.afterAll es).Lodged j := by
  refine h.invariant (I := fun w => w.Steady ∧ w.Lodged j) ?_ ⟨hw, hj⟩
  rintro w ev ⟨hw, hj⟩ ⟨order, quiet, -⟩
  exact ⟨hw.after order, hj.after hw.sound.keyed (order.hostOrder w ev) quiet⟩

/-- A job that would be admitted is not rejected when it is announced, and has a home then. Its
announcement fails only if the host is made to refuse something. -/
theorem Steady.new_admitted (hw : w.Steady) (args : Json) (hadm : w.engine.Admits job)
    (hnew : job.id ∉ w.arrived) :
    (∀ reason, (w.step .new args job).outcome ≠ .error (.rejected reason)) ∧
      (w.Spares (.call .new args job) → (w.step .new args job).outcome = .ok .accepted) ∧
      (w.after (.call .new args job)).Lodged job.id := by
  have hl : w.live job.id = none := hw.sound.not_live hnew
  have step : w.step .new args job = (w.engine.newJob job {}).map fun _ => .accepted := by
    rw [World.step, storage_of_not_live hl]
    rfl
  obtain ⟨err, ps, b, a, ho, hserve, hb, ha, hu⟩ := hadm.newJob hw.undetached
  have after := after_new_engine args hl
  refine ⟨fun reason rejected => ?_, fun spares => ?_, ?_, fun l hl' => ?_⟩
  · rw [step, Step.outcome_map_eq_error, ho] at rejected
    cases err <;> cases rejected
  · rw [step, Step.outcome_map_eq_ok, ho]
    cases err with
    | none => exact ⟨(), rfl, rfl⟩
    | some err =>
      refine absurd ?_ spares
      rw [after]
      exact Host.spent_of_serve (Engine.removed?_of_patches job ps) hserve
  · exact Finset.mem_insert_self _ _
  · have live := hl'
    rw [after_new_live hl, Function.update_self] at live
    cases live
    refine ⟨b.account.key, a, accountOf_of_binding hl' hb, ?_, fun hp => ?_⟩
    · have keyed : (w.after (.call .new args job)).engine.ledger.Keyed :=
        keyed_after hw.sound.keyed
      rw [after] at keyed
      rw [account, after]
      exact keyed.kept ha
    · have grows : w.engine.ledger.GrowsTo (w.after (.call .new args job)).engine.ledger :=
        w.growsTo_after rfl
      exact (hu hp).of_growsTo grows

/-- A job with a home goes its way without an error, unless the host is made to refuse something.
It is told that there is no account yet if it is bound to a placeholder. -/
theorem Lodged.answered (hj : w.Lodged job.id) (hw : w.Steady)
    (h : w.CalmOrder (.call topic args job)) (ht : topic.isStage = true) :
    ∃ reply, (w.step topic args job).outcome = .ok reply ∧
      (topic = .priority ∨ topic = .priorityGet →
        (reply = .unavailable ↔ w.onPlaceholder job.id = true)) := by
  obtain ⟨order, -, spares⟩ := h
  have live : ∃ l, w.live job.id = some l ∧ l.userid = job.userid ∧ l.bank = job.bank := by
    cases topic with
    | validate | new | updateQueue | queueUpdated => cases ht
    | depend | priority | priorityGet | run | inactive =>
      obtain ⟨l, hl, due⟩ := order
      exact ⟨l, hl, due.userid, due.bank⟩
  obtain ⟨l, hl, huser, hbank⟩ := live
  obtain ⟨k, a, hk, ha, hu⟩ := hj.home l hl
  rw [huser, hbank] at hu
  obtain ⟨b, hb, rfl⟩ := Option.map_eq_some_iff.mp hk
  rw [storage_of_live hl] at hb
  have bound : w.engine.boundAccount l.storage = some (b, a) :=
    hw.sound.boundAccount hl hb ha
  have placeholder : w.onPlaceholder job.id = a.isPlaceholder := by
    rw [onPlaceholder, storage_of_live hl, bound]
    rfl
  have host : (w.after (.call topic args job)).engine.host =
      (w.engine.stepOf topic args job l.storage).engine.host := after_call_host hl
  rw [placeholder, World.step, storage_of_live hl]
  cases topic with
  | validate | new | updateQueue | queueUpdated => cases ht
  | depend =>
    obtain ⟨rs, effect⟩ := w.engine.depend_effect job l.storage
    rcases effect.ok_or_spent bound with ⟨answer, ho⟩ | spent
    · exact ⟨_, Step.outcome_map_eq_ok.mpr ⟨answer, ho, rfl⟩, by simp⟩
    · exact absurd (host ▸ spent) spares
  | priority | priorityGet =>
    obtain ⟨rs, effect⟩ := w.engine.priority_effect job l.storage
    obtain ⟨answer, ho, unavailable⟩ := effect.of_bound bound hu
    refine ⟨_, Step.outcome_map_eq_ok.mpr ⟨answer, ho, rfl⟩, fun _ => ?_⟩
    rw [← unavailable]
    cases answer <;> simp [Reply.ofPriority]
  | run =>
    exact ⟨_, Step.outcome_map_eq_ok.mpr ⟨(), Engine.run_of_bound bound, rfl⟩, by simp⟩
  | inactive =>
    obtain ⟨rs, effect⟩ := w.engine.inactive_effect job l.storage
    have made : ∀ err, (w.engine.inactive job l.storage).outcome =
        .error (.fault (.dependencyRemove err)) →
          w.engine.host.armed .removeDependency = true := by
      intro err herr
      refine ((hw.outstanding.agrees hw.sound).refused args job err order ?_).1
      rw [World.step, storage_of_live hl]
      exact Step.outcome_map_eq_error.mpr herr
    rcases effect.ok_or_spent bound made with ho | spent
    · exact ⟨_, Step.outcome_map_eq_ok.mpr ⟨(), ho, rfl⟩, by simp⟩
    · exact absurd (host ▸ spent) spares

/-- A job that validation accepts is not rejected when it is announced next. As long as the feed
tells nothing from then on and the host refuses nothing, the announcement and every later call by
which the job goes its way are answered without an error, and the job is told that there is no
account yet exactly if it is bound to a placeholder. -/
theorem no_faults {config : Config} {host : Host} {audit : Option AuditTrail}
    {args' : Json} {reply : Reply} (hempty : host.dependencies = ∅)
    (h : (start config host audit).Obeys RecordingOrder es) (hstate : job.state = .new)
    (hnew : job.id ∉ ((start config host audit).afterAll es).arrived)
    (hvalid : (((start config host audit).afterAll es).step .validate args job).outcome =
      .ok reply) :
    let w := (start config host audit).afterAll (es ++ [.call .validate args job])
    (∀ reason, (w.step .new args' job).outcome ≠ .error (.rejected reason)) ∧
      ∀ es', w.Obeys CalmOrder (.call .new args' job :: es') →
        (w.step .new args' job).outcome = .ok .accepted ∧
          ∀ topic args'' job', job'.id = job.id → topic.isStage = true →
            let w' := w.afterAll (.call .new args' job :: es')
            w'.CalmOrder (.call topic args'' job') →
              ∃ reply, (w'.step topic args'' job').outcome = .ok reply ∧
                (topic = .priority ∨ topic = .priorityGet →
                  (reply = .unavailable ↔ w'.onPlaceholder job.id = true)) := by
  intro w
  have steady : w.Steady :=
    Obeys.steady (obeys_append.mpr ⟨h, trivial, trivial⟩) (start_steady config audit hempty)
  have hw : w = ((start config host audit).afterAll es).after (.call .validate args job) :=
    afterAll_append ..
  have admits : w.engine.Admits job := by
    obtain ⟨_, ho, -⟩ := Step.outcome_map_eq_ok.mp hvalid
    rw [hw]
    exact Engine.admits_of_validate hstate ho
  have unannounced : job.id ∉ w.arrived := by
    rw [hw, after_call_arrived (by simp)]
    exact hnew
  obtain ⟨unrejected, accepted, lodged⟩ := steady.new_admitted args' admits unannounced
  refine ⟨unrejected, fun es' calm => ?_⟩
  obtain ⟨first, rest⟩ := calm
  refine ⟨accepted first.2.2, fun topic args'' job' hid ht => ?_⟩
  intro w' due
  obtain ⟨steady', lodged'⟩ := Obeys.lodged rest (steady.after first.1) lodged
  rw [← hid] at lodged' ⊢
  exact lodged'.answered steady' due ht

end Steady

namespace Sample

/-- A record tells of an account with one running slot. -/
def opening : List (Event Host) := [.feed .accounts [record 1]]

/-- Job 7 is announced and runs, while job 8 comes to the throttle behind it and is held. -/
def passing : List (Event Host) :=
  [.call .new .null (job 8), .call .depend .null (job 7), .call .depend .null (job 8),
   .call .priority .null (job 7), .call .run .null (job 7)]

end Sample

/-- In the sample, job 7 is validated and goes its way until it leaves, which releases job 8. -/
theorem sample_no_faults :
    let w := Sample.start.afterAll (Sample.opening ++ [.call .validate .null (Sample.job 7)])
    let w' := w.afterAll (.call .new .null (Sample.job 7) :: Sample.passing)
    Sample.start.engine.host.dependencies = ∅ ∧
      Sample.start.Obeys RecordingOrder Sample.opening ∧ (Sample.job 7).state = .new ∧
      7 ∉ (Sample.start.afterAll Sample.opening).arrived ∧
      ((Sample.start.afterAll Sample.opening).step .validate .null (Sample.job 7)).outcome =
        .ok .accepted ∧
      w.Obeys CalmOrder (.call .new .null (Sample.job 7) :: Sample.passing) ∧
      w'.CalmOrder Sample.leaving ∧
      (w'.after Sample.leaving).engine.host.releasedJobs = [8] ∧
      ∃ reply, (w'.step .inactive .null { Sample.job 7 with allocObserved := true }).outcome =
        .ok reply := by
  intro w w'
  have obeys : Sample.start.Obeys RecordingOrder Sample.opening := by decide +kernel
  have unannounced : (Sample.job 7).id ∉ (Sample.start.afterAll Sample.opening).arrived := by
    decide +kernel
  have valid : ((Sample.start.afterAll Sample.opening).step .validate .null
      (Sample.job 7)).outcome = .ok .accepted := by
    decide +kernel
  have calm : w.Obeys CalmOrder (.call .new .null (Sample.job 7) :: Sample.passing) := by
    decide +kernel
  have due : w'.CalmOrder Sample.leaving := by decide +kernel
  obtain ⟨reply, answered, -⟩ := ((no_faults rfl obeys rfl unannounced valid).2 _ calm).2
    .inactive .null { Sample.job 7 with allocObserved := true } rfl rfl due
  exact ⟨rfl, obeys, rfl, unannounced, valid, calm, due, by decide +kernel, reply, answered⟩

end World

end JobAdmission

import JobAdmission.Proofs.Held

/-!
# Engine and host agree on who is held

Three places tell whether a job is held: the gate of its account, the dependencies of the
host, and what is kept for the job. This module proves that they agree in every run over a
host that writes down what it is asked for, whichever requests it is made to refuse
(`World.agreement`). The host carries the dependency of a job exactly as long as the job is
held, and what is kept for the job tells so until the job runs. So the engine asks to remove
a dependency only where there is one, and the host refuses that only where it is made to.
-/

namespace JobAdmission

open HostRequest

/-- All dependencies carry one label. -/
theorem Move.label_eq {k : AccountKey} {j i : JobId} {refusing : Bool} {rs : List HostRequest}
    {a a' : Account} {m m' : Option Member} {label : String}
    (h : Move k j refusing rs a m a' m')
    (hr : .addDependency i label ∈ rs ∨ .removeDependency i label ∈ rs) : label = heldLabel := by
  cases h with
  | hold | moveInHeld | release => simp_all
  | sit | enroll | wave | refuse | prioritize | depart | settle | start | proceed | moveIn | leave
  | free | keep => simp at hr

theorem Scene.Step.label_eq {k : AccountKey} {refusing : Bool} {granted : List Terms}
    {rs : List HostRequest} {s s' : Scene} (h : Scene.Step k refusing granted rs s s')
    {i : JobId} {label : String}
    (hr : .addDependency i label ∈ rs ∨ .removeDependency i label ∈ rs) : label = heldLabel := by
  cases h with
  | told | quiet | found | foundFor => simp at hr
  | move _ _ _ h => exact h.label_eq hr

namespace World

/-- The host's order, where the host changes of its own only what it wrote down and what it is
made to refuse. -/
def RecordingOrder (w : World Host) : Event Host → Prop
  | .scheduler host => host.dependencies = w.engine.host.dependencies
  | ev => w.HostOrder ev

theorem RecordingOrder.hostOrder (w : World Host) (ev : Event Host) (h : w.RecordingOrder ev) :
    w.HostOrder ev := by
  cases ev with
  | scheduler => trivial
  | feed | reprioritize | call => exact h

instance (w : World Host) : DecidablePred w.RecordingOrder
  | .scheduler _ => inferInstanceAs (Decidable (_ = _))
  | .feed kind rows => inferInstanceAs (Decidable (w.HostOrder (.feed kind rows)))
  | .reprioritize => inferInstanceAs (Decidable (w.HostOrder .reprioritize))
  | .call topic args job => inferInstanceAs (Decidable (w.HostOrder (.call topic args job)))

/-- The host carries the dependency of a job that did not leave exactly if the job is held. -/
def Outstanding (w : World Host) : Prop :=
  ∀ j, ¬ w.Gone j →
    (w.engine.host.hasDependency j heldLabel = true ↔ ∃ k, j ∈ (w.scene k).held)

/-- Engine and host agree on the held jobs. -/
structure Agrees (w : World Host) : Prop where
  /-- The account of a bound job tells what the host and what is kept for the job tell. -/
  bound : ∀ j l b, w.live j = some l → l.storage.binding = some b →
    ∃ a, w.engine.ledger.objects[b.account]? = some a ∧
      (w.engine.host.hasDependency j heldLabel = true ↔ j ∈ a.usage.gate.held) ∧
      (l.storage.hasDependency heldLabel = true ↔
        j ∈ a.usage.gate.held ∨ j ∈ a.usage.gate.released)
  /-- Where the host refuses to release a job, it was made to. -/
  refused : ∀ args job err, w.HostOrder (.call .inactive args job) →
    (w.step .inactive args job).outcome = .error (.fault (.dependencyRemove err)) →
      w.engine.host.armed .removeDependency = true ∧ err = .refused .removeDependency

variable {w : World Host} {ev : Event Host} {rs : List HostRequest} {j : JobId} {k : AccountKey}

/-! ### Dependencies -/

theorem Does.add_mem (d : w.Does ev rs) :
    .addDependency j heldLabel ∈ rs ↔ j ∈ heldJobs rs := by
  constructor
  · exact fun hr => mem_heldJobs.mpr ⟨_, hr⟩
  · intro hj
    obtain ⟨k, hk⟩ := d.asks.accountOf_of_held hj
    obtain ⟨label, hr⟩ := mem_heldJobs.mp (mem_heldJobs_requestsAt.mpr ⟨hj, hk⟩)
    obtain rfl := (d.step k).label_eq (.inl hr)
    exact (List.mem_filter.mp hr).1

theorem Does.remove_mem (d : w.Does ev rs) :
    .removeDependency j heldLabel ∈ rs ↔ j ∈ releasedJobs rs := by
  constructor
  · exact fun hr => mem_releasedJobs.mpr ⟨_, hr⟩
  · intro hj
    obtain ⟨k, hk⟩ := d.asks.accountOf_of_released hj
    obtain ⟨label, hr⟩ := mem_releasedJobs.mp (mem_releasedJobs_requestsAt.mpr ⟨hj, hk⟩)
    obtain rfl := (d.step k).label_eq (.inr hr)
    exact (List.mem_filter.mp hr).1

/-- The jobs that are held after an event: those that were held before and are not released,
and the one that is held in it. -/
theorem Does.held_iff (d : w.Does ev rs) (hs : w.Sound) (h : w.HostOrder ev)
    (hj : ¬ (w.after ev).Gone j) : (∃ k, j ∈ ((w.after ev).scene k).held) ↔
      ((∃ k, j ∈ (w.scene k).held) ∧ j ∉ releasedJobs rs) ∨ j ∈ heldJobs rs := by
  constructor
  · rintro ⟨k, hk⟩
    have account := accountOf_of_settled (((hs.after h).scenes k).settled_of_held hk)
    rcases List.mem_append.mp ((d.step k).queue.subset (List.mem_append_right _ hk)) with hi | hi
    · refine .inl ⟨⟨k, hi⟩, fun hr => ?_⟩
      exact ((d.step k).mem_releasedJobs (hs.scenes k)
        (mem_releasedJobs_requestsAt.mpr ⟨hr, account⟩)).2 hk
    · exact .inr (mem_heldJobs_requestsAt.mp hi).1
  · rintro (⟨⟨k, hk⟩, hr⟩ | hi)
    · refine ⟨k, ?_⟩
      rcases (d.step k).remains hk with hi | hi | hnone
      · exact absurd (mem_releasedJobs_requestsAt.mp hi).1 hr
      · exact hi
      · -- a held job that did not leave is still seen by its account
        rcases hs.settled_after h ((hs.scenes k).settled_of_held hk) with settled | hleaving
        · obtain ⟨_, _, -, -, hm, -⟩ := settled
          simp [hnone] at hm
        · exact absurd (hs.gone_of_leaving h hleaving) hj
    · obtain ⟨k, hk⟩ := d.asks.accountOf_of_held hi
      exact ⟨k, ((d.step k).mem_heldJobs (mem_heldJobs_requestsAt.mpr ⟨hi, hk⟩)).1⟩

/-- The host carries a dependency after an event if it did before and the event does not
remove it, or if the event adds it. -/
theorem Does.hasDependency_iff (d : w.Does ev rs) (hs : w.Sound) (h : w.RecordingOrder ev) :
    (w.after ev).engine.host.hasDependency j heldLabel = true ↔
      (w.engine.host.hasDependency j heldLabel = true ∧ j ∉ releasedJobs rs) ∨
        j ∈ heldJobs rs := by
  rw [← d.add_mem, ← d.remove_mem]
  have apart : .removeDependency j heldLabel ∈ rs → .addDependency j heldLabel ∉ rs := by
    rw [d.add_mem, d.remove_mem]
    intro hr hi
    obtain ⟨k, hk⟩ := d.asks.accountOf_of_held hi
    exact ((d.step k).mem_releasedJobs (hs.scenes k)
      (mem_releasedJobs_requestsAt.mpr ⟨hr, hk⟩)).2
        ((d.step k).mem_heldJobs (mem_heldJobs_requestsAt.mpr ⟨hi, hk⟩)).1
  cases ev with
  | scheduler host =>
    have same : host.dependencies = w.engine.host.dependencies := h
    obtain rfl : rs = [] := d.accepts
    simp [World.after, Host.hasDependency, same]
  | feed | reprioritize | call => exact Host.hasDependency_of_accepts d.accepts apart

theorem Outstanding.after (ho : w.Outstanding) (hs : w.Sound) (h : w.RecordingOrder ev) :
    (w.after ev).Outstanding := by
  intro j hj
  have hostOrder := h.hostOrder w ev
  obtain ⟨rs, d⟩ := hs.does hostOrder
  rw [d.hasDependency_iff hs h, d.held_iff hs hostOrder hj,
    ho j fun hgone => hj (gone_after hostOrder hgone)]

/-! ### Agreement -/

/-- A host that carries a dependency refuses to remove it only if it is made to. -/
theorem refused_of_removal {host host' : Host} {label : String} {err : HostError}
    (hd : host.hasDependency j label = true)
    (hr : host.request (.removeDependency j label) = (some err, host')) :
    host.armed .removeDependency = true ∧ err = .refused .removeDependency := by
  unfold Host.request at hr
  split at hr
  · rename_i harmed
    cases hr
    exact ⟨harmed, rfl⟩
  · simp [Host.objection, hd] at hr

theorem Outstanding.agrees (ho : w.Outstanding) (hs : w.Sound) : w.Agrees where
  bound j l b hl hb := by
    have member := scene_member_of_binding hl hb
    obtain ⟨a, ha, -⟩ := (hs.scenes b.account.key).housed j _ member
    have fits := ((hs.scenes b.account.key).books a ha).fits j _ member
    have bound := Engine.boundAccount_eq_some.mp (hs.boundAccount hl hb ha)
    refine ⟨a, bound.2, ?_, fits.marked⟩
    rw [ho j fun hgone => by simp [hgone.2] at hl]
    constructor
    · rintro ⟨k, hk⟩
      have hk' := accountOf_of_settled ((hs.scenes k).settled_of_held hk)
      obtain rfl : b.account.key = k :=
        Option.some.inj ((accountOf_of_binding hl hb).symm.trans hk')
      rwa [Scene.held_of_account ha] at hk
    · intro hj
      refine ⟨b.account.key, ?_⟩
      rwa [Scene.held_of_account ha]
  refused args job err h hout := by
    obtain ⟨l, hl, due⟩ := h
    rw [step, storage_of_live hl] at hout
    have hout : (w.engine.inactive job l.storage).outcome =
        .error (.fault (.dependencyRemove err)) := Step.outcome_map_eq_error.mp hout
    obtain ⟨rs, effect⟩ := w.engine.inactive_effect job l.storage
    rw [hout] at effect
    generalize (w.engine.inactive job l.storage).engine.host = host at effect
    generalize (w.engine.inactive job l.storage).engine.ledger = ledger at effect
    generalize (w.engine.inactive job l.storage).storage = s at effect
    cases effect with
    | @kept b a a₁ _ next _ _ hb hleave hr hreq =>
      obtain ⟨-, ha⟩ := hs.bound hl hb
      -- the job to be released is held, so the host carries its dependency
      have held : next ∈ (w.scene b.account.key).held := by
        obtain ⟨rest, hh, -, -⟩ := Account.releaseNext_some hr
        obtain ⟨-, rfl⟩ := Account.leave_eq hleave
        rw [Scene.held_of_account ha]
        exact (Gate.mem_held_withdraw.mp (hh ▸ List.mem_cons_self)).2
      have account := accountOf_of_settled ((hs.scenes b.account.key).settled_of_held held)
      have there : ¬ w.Gone next := fun hgone => by simp [hgone.accountOf] at account
      exact refused_of_removal ((ho next there).mpr ⟨b.account.key, held⟩) hreq

/-- Engine and host agree on the held jobs after every run, if the host starts without any
dependency. -/
theorem agreement {config : Config} {host : Host} {audit : Option AuditTrail}
    {es : List (Event Host)} (hempty : host.dependencies = ∅)
    (h : (start config host audit).Obeys RecordingOrder es) :
    ((start config host audit).afterAll es).Agrees := by
  have hs := start_sound config host audit
  have ho : (start config host audit).Outstanding := by
    intro j _
    have nothing : host.hasDependency j heldLabel = false := by simp [Host.hasDependency, hempty]
    simp only [held_start, List.not_mem_nil, exists_false, iff_false, Bool.not_eq_true]
    exact nothing
  have keep : ∀ (w : World Host) ev, w.Sound ∧ w.Outstanding → w.RecordingOrder ev →
      (w.after ev).Sound ∧ (w.after ev).Outstanding := by
    rintro w ev ⟨hs, ho⟩ h
    exact ⟨hs.after (h.hostOrder w ev), ho.after hs h⟩
  obtain ⟨hs, ho⟩ := h.invariant keep ⟨hs, ho⟩
  exact ho.agrees hs

/-! ### A refused release -/

namespace Sample

/-- The host is made to refuse the next removal of a dependency. -/
def arming : Event Host :=
  .scheduler { dependencies := {⟨8, heldLabel⟩}, armed := fun op => op == .removeDependency }

/-- Job 7 leaves. -/
def leaving : Event Host := .call .inactive .null { job 7 with allocObserved := true }

end Sample

/-- In the sample, the host is made to refuse the release of the held job when the running one
leaves. The job stays held, and all agree on that. -/
theorem sample_agrees :
    Sample.start.engine.host.dependencies = ∅ ∧
      Sample.start.Obeys RecordingOrder (Sample.events ++ [Sample.arming, Sample.leaving]) ∧
      (Sample.start.afterAll (Sample.events ++ [Sample.arming])).refuses Sample.leaving = true ∧
      ((Sample.start.afterAll (Sample.events ++ [Sample.arming, Sample.leaving])).scene
        Sample.key).held = [8] ∧
      (Sample.start.afterAll (Sample.events ++ [Sample.arming, Sample.leaving])).Agrees := by
  have obeys :
      Sample.start.Obeys RecordingOrder (Sample.events ++ [Sample.arming, Sample.leaving]) := by
    decide +kernel
  exact ⟨rfl, obeys, by decide +kernel, by decide +kernel, agreement rfl obeys⟩

end World

end JobAdmission

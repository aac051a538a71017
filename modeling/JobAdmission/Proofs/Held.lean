import JobAdmission.Proofs.Calls

/-!
# Held jobs

This module follows the queue of held jobs through whatever happens. At one account, the
jobs that are released, followed by those that stay, come in the order of the queue before,
followed by the job that is held now (`Scene.Step.queue`), and a held job that is not
released stays unless it leaves (`Scene.Step.remains`). Every job comes to a throttle at
most once: before, it is not settled at a real account, and from then on it is, until it
leaves (`World.Past`). So an event holds only jobs that are new to the throttle
(`World.Does.past_of_held`), and releases only jobs that are held
(`World.Does.free_of_released`).
-/

namespace JobAdmission

open HostRequest

variable {k : AccountKey} {j i : JobId} {refusing : Bool} {rs : List HostRequest} {a a' : Account}
  {m m' : Option Member}

/-! ### The queue of an account -/

namespace Move

/-- What a call does to the queue: the released job is taken from the front, the held one
comes to the end, and a job that leaves is dropped from where it is. -/
theorem queue (h : Move k j refusing rs a m a' m') :
    (releasedJobs rs ++ a'.usage.gate.held).Sublist (a.usage.gate.held ++ heldJobs rs) := by
  have withdrawn : ∀ {b : JobBinding} {ran freed : Bool} {a₁ : Account},
      a.leave j b ran = (freed, a₁) → a₁.usage.gate.held.Sublist a.usage.gate.held := by
    intro b ran freed a₁ hl
    obtain ⟨-, rfl⟩ := Account.leave_eq hl
    exact List.filter_sublist
  have asked : ∀ {a₁ : Account}, a₁.usage.gate.held.Sublist a.usage.gate.held →
      (releasedJobs [] ++ a₁.usage.gate.held).Sublist (a.usage.gate.held ++ heldJobs []) := by
    simp
  cases h with
  | sit | enroll | wave | refuse | prioritize | depart | settle | start => exact asked (.refl _)
  | proceed _ hg | moveIn _ hg _ =>
    obtain ⟨-, -, rfl⟩ := Account.enterGate_proceed hg
    exact asked (.refl _)
  | hold _ hg | moveInHeld _ hg _ =>
    obtain ⟨-, rfl⟩ := Account.enterGate_hold hg
    exact .refl _
  | leave hl => exact asked (withdrawn hl)
  | keep _ hl _ =>
    have sub := withdrawn hl
    exact asked sub
  | free hl hr =>
    obtain ⟨-, rfl⟩ := Account.releaseNext_none hr
    exact asked (withdrawn hl)
  | release hl hr =>
    obtain ⟨rest, hh, -, rfl⟩ := Account.releaseNext_some hr
    have sub := withdrawn hl
    rw [hh] at sub
    simpa [Account.withGate] using sub

/-- A held job is released, or is held still, or is the one that leaves. -/
theorem remains (h : Move k j refusing rs a m a' m') (hi : i ∈ a.usage.gate.held) :
    i ∈ releasedJobs rs ∨ i ∈ a'.usage.gate.held ∨ i = j ∧ m' = none := by
  have withdrawn : ∀ {b : JobBinding} {ran freed : Bool} {a₁ : Account},
      a.leave j b ran = (freed, a₁) → i ≠ j → i ∈ a₁.usage.gate.held := by
    intro b ran freed a₁ hl hij
    obtain ⟨-, rfl⟩ := Account.leave_eq hl
    exact Gate.mem_held_withdraw.mpr ⟨hij, hi⟩
  by_cases hij : i = j ∧ m' = none
  · exact .inr (.inr hij)
  cases h with
  | sit | enroll | wave | refuse | prioritize | depart | settle | start => exact .inr (.inl hi)
  | proceed _ hg | moveIn _ hg _ =>
    obtain ⟨-, -, rfl⟩ := Account.enterGate_proceed hg
    exact .inr (.inl hi)
  | hold _ hg | moveInHeld _ hg _ =>
    obtain ⟨-, rfl⟩ := Account.enterGate_hold hg
    exact .inr (.inl (List.mem_append_left _ hi))
  | leave hl => exact .inr (.inl (withdrawn hl (by simpa using hij)))
  | keep _ hl _ =>
    have stays := withdrawn hl (by simpa using hij)
    exact .inr (.inl stays)
  | free hl hr =>
    obtain ⟨-, rfl⟩ := Account.releaseNext_none hr
    exact .inr (.inl (withdrawn hl (by simpa using hij)))
  | release hl hr =>
    have stays := withdrawn hl (by simpa using hij)
    obtain ⟨rest, hh, -, rfl⟩ := Account.releaseNext_some hr
    rw [hh, List.mem_cons] at stays
    exact stays.imp List.mem_singleton.mpr .inl

/-- A job that is held now came to the throttle just now. -/
theorem mem_heldJobs (h : Move k j refusing rs a m a' m') (hi : i ∈ heldJobs rs) :
    i = j ∧ i ∈ a'.usage.gate.held ∧ ∀ n, m = some n → n.phase = .fresh := by
  cases h with
  | hold _ hg =>
    obtain ⟨-, rfl⟩ := Account.enterGate_hold hg
    obtain rfl : i = j := by simpa using hi
    refine ⟨rfl, List.mem_append_right _ List.mem_cons_self, ?_⟩
    rintro n ⟨⟩
    rfl
  | moveInHeld _ hg _ =>
    obtain ⟨-, rfl⟩ := Account.enterGate_hold hg
    obtain rfl : i = j := by simpa using hi
    exact ⟨rfl, List.mem_append_right _ List.mem_cons_self, by simp⟩
  | sit | enroll | wave | refuse | prioritize | depart | settle | start | proceed | moveIn | leave
  | free | keep | release => simp at hi

theorem nodup_heldJobs (h : Move k j refusing rs a m a' m') : (heldJobs rs).Nodup := by
  cases h with
  | hold | moveInHeld => exact List.nodup_singleton _
  | sit | enroll | wave | refuse | prioritize | depart | settle | start | proceed | moveIn | leave
  | free | keep | release => exact .nil

/-- When a job is released, it is the only one, and the one that leaves is not held. -/
theorem of_release {f : JobId → Option Member} {n : JobId}
    (h : Move k j refusing rs a m a' m') (hm : f j = m) (B : a.usage.Books f)
    (hn : n ∈ releasedJobs rs) : releasedJobs rs = [n] ∧ j ∉ a.usage.gate.held := by
  cases h with
  | @release _ _ _ m _ hl _ =>
    obtain rfl := List.mem_singleton.mp hn
    refine ⟨rfl, fun hj => ?_⟩
    obtain ⟨hfreed, -⟩ := Account.leave_eq hl
    have fits := B.fits j m hm
    obtain ⟨slotless, hreleased⟩ := fits.held hj
    have ran : m.phase ≠ .running := by
      rw [Ne, ← fits.counted, slotless.2]
      simp
    simp [Gate.hasSlot, slotless.1, Gate.contains_eq_false hreleased, ran] at hfreed
  | sit | enroll | wave | refuse | prioritize | depart | settle | start | proceed | moveIn | leave
  | free | keep | hold | moveInHeld => simp at hn

end Move

/-! ### The queue of a scene -/

namespace Scene

variable {s s' : Scene} {granted : List Terms}

/-- The jobs that the account holds, first come first. -/
def held (s : Scene) : List JobId := (s.account.map fun a => a.usage.gate.held).getD []

/-- The account is real, and the job came to its throttle and is bound to it. -/
def Settled (s : Scene) (i : JobId) : Prop :=
  ∃ a m, s.account = some a ∧ a.isPlaceholder = false ∧ s.member i = some m ∧ m.phase ≠ .fresh

theorem held_of_account (ha : s.account = some a) : s.held = a.usage.gate.held := by
  rw [held, ha]
  rfl

theorem held_told (k : AccountKey) (s : Scene) (terms : Terms) :
    held { s with account := some (.told k s.account terms) } = s.held := by
  cases ha : s.account with
  | none => simp [held, ha, Account.told]
  | some a => simp [held, ha, Account.told, Account.refresh]

theorem held_of_none (ha : s.account = none) : s.held = [] := by
  rw [held, ha]
  rfl

theorem mem_held (hi : i ∈ s.held) : ∃ a, s.account = some a ∧ i ∈ a.usage.gate.held := by
  cases ha : s.account with
  | none => simp [held_of_none ha] at hi
  | some a => exact ⟨a, rfl, held_of_account ha ▸ hi⟩

theorem Sound.nodup_held (hs : s.Sound k) : s.held.Nodup := by
  cases ha : s.account with
  | none => simp [held_of_none ha]
  | some a => exact held_of_account ha ▸ (hs.books a ha).nodup

/-- A held job is settled. -/
theorem Sound.settled_of_held (hs : s.Sound k) (hi : i ∈ s.held) : s.Settled i := by
  obtain ⟨a, ha, hi⟩ := mem_held hi
  have books := hs.books a ha
  obtain ⟨m, hm⟩ := books.held i hi
  refine ⟨a, m, ha, ?_, hm, fun hp => ?_⟩
  · by_contra hp
    exact (hs.plain a ha (by simpa using hp) i m hm).2.1 hi
  · exact ((books.fits i m hm).early (.inl hp)).2.1 hi

namespace Step

theorem queue (h : Scene.Step k refusing granted rs s s') :
    (releasedJobs rs ++ s'.held).Sublist (s.held ++ heldJobs rs) := by
  cases h with
  | told => simp [held_told]
  | quiet => simp [held]
  | found _ hnone | foundFor _ _ hnone => simp [held, hnone, Account.placeholder]
  | move _ _ ha h =>
    rw [held_of_account ha]
    exact h.queue

/-- A held job is released, or is held still, or the account does not see it any more. -/
theorem remains (h : Scene.Step k refusing granted rs s s') (hi : i ∈ s.held) :
    i ∈ releasedJobs rs ∨ i ∈ s'.held ∨ s'.member i = none := by
  cases h with
  | told => exact .inr (.inl (by rwa [held_told]))
  | quiet => exact .inr (.inl hi)
  | found _ hnone | foundFor _ _ hnone => simp [held_of_none hnone] at hi
  | move _ _ ha h =>
    rw [held_of_account ha] at hi
    rcases h.remains hi with hi | hi | ⟨rfl, rfl⟩
    · exact .inl hi
    · exact .inr (.inl hi)
    · exact .inr (.inr (Function.update_self ..))

/-- When a job is released, all other held jobs stay. -/
theorem remains_of_release (h : Scene.Step k refusing granted rs s s') (hs : s.Sound k)
    (hj : j ∈ releasedJobs rs) (hi : i ∈ s.held) : i = j ∨ i ∈ s'.held := by
  cases h with
  | told | quiet | found | foundFor => simp at hj
  | move _ _ ha h =>
    obtain ⟨only, notMem⟩ := h.of_release rfl (hs.books _ ha) hj
    rw [held_of_account ha] at hi
    rcases h.remains hi with hi | hi | ⟨rfl, -⟩
    · rw [only] at hi
      exact .inl (List.mem_singleton.mp hi)
    · exact .inr hi
    · exact absurd hi notMem

/-- A job that is held now was not settled. -/
theorem mem_heldJobs (h : Scene.Step k refusing granted rs s s') (hi : i ∈ heldJobs rs) :
    i ∈ s'.held ∧ ¬ s.Settled i := by
  cases h with
  | told | quiet | found | foundFor => simp at hi
  | move _ _ _ h =>
    obtain ⟨rfl, held, fresh⟩ := h.mem_heldJobs hi
    refine ⟨held, ?_⟩
    rintro ⟨_, n, -, -, hn, hp⟩
    exact hp (fresh n hn)

/-- No job is held twice. -/
theorem nodup_queue (h : Scene.Step k refusing granted rs s s') (hs : s.Sound k) :
    (s.held ++ heldJobs rs).Nodup := by
  have nodup : (heldJobs rs).Nodup := by
    cases h with
    | told | quiet | found | foundFor => exact .nil
    | move _ _ _ h => exact h.nodup_heldJobs
  refine List.nodup_append'.mpr ⟨hs.nodup_held, nodup, fun i hheld hnew => ?_⟩
  exact (h.mem_heldJobs hnew).2 (hs.settled_of_held hheld)

/-- A job that is released was held, and is not held any more. -/
theorem mem_releasedJobs (h : Scene.Step k refusing granted rs s s') (hs : s.Sound k)
    (hi : i ∈ releasedJobs rs) : i ∈ s.held ∧ i ∉ s'.held := by
  have notMem : i ∉ s'.held :=
    List.disjoint_of_nodup_append ((h.nodup_queue hs).sublist h.queue) hi
  refine ⟨?_, notMem⟩
  rcases List.mem_append.mp (h.queue.subset (List.mem_append_left _ hi)) with hheld | hnew
  · exact hheld
  · exact absurd (h.mem_heldJobs hnew).1 notMem

/-- A settled job stays settled as long as the account sees it. -/
theorem settled (h : Scene.Step k refusing granted rs s s') (hi : s.Settled i) :
    s'.Settled i ∨ s'.member i = none := by
  obtain ⟨a, m, ha, real, hm, hp⟩ := hi
  cases h with
  | told =>
    refine .inl ⟨_, m, rfl, ?_, hm, hp⟩
    rw [ha]
    rfl
  | quiet => exact .inl ⟨a, m, ha, real, hm, hp⟩
  | found _ hnone | foundFor _ _ hnone => simp [hnone] at ha
  | @move _ S j rs a₁ a' m' _ _ ha' h =>
    obtain rfl : a₁ = a := by simpa [ha'] using ha
    have real' : a'.isPlaceholder = false := by
      rw [Account.isPlaceholder, h.frame.2.1]
      exact real
    by_cases hij : i = j
    · subst hij
      rw [hm] at h
      cases m' with
      | none => exact .inr (Function.update_self ..)
      | some n =>
        refine .inl ⟨a', n, rfl, real', Function.update_self .., ?_⟩
        cases h with
        | wave | proceed | hold | refuse | start => simp
        | settle => exact hp
        | @prioritize _ _ p => by_cases hw : p = .waiting <;> simp_all
    · exact .inl ⟨a', m, rfl, real', (Function.update_of_ne hij ..).trans hm, hp⟩

end Step

end Scene

/-! ### Jobs past the throttle -/

namespace World

variable {H : Type} {w : World H}

/-- The job was announced, and left. -/
def Gone (w : World H) (j : JobId) : Prop := j ∈ w.arrived ∧ w.live j = none

/-- The job is settled at a real account, or left. -/
def Past (w : World H) (j : JobId) : Prop := w.Gone j ∨ ∃ k, (w.scene k).Settled j

/-- The job is past the throttle, and is not held. -/
def Free (w : World H) (j : JobId) : Prop :=
  w.Gone j ∨ ∃ k, (w.scene k).Settled j ∧ j ∉ (w.scene k).held

theorem held_start (config : Config) (host : H) (audit : Option AuditTrail) (k : AccountKey) :
    ((start config host audit).scene k).held = [] :=
  Scene.held_of_none (account_start config host audit k)

theorem member_of_accountOf (hj : w.accountOf j = some k) : ∃ m, (w.scene k).member j = some m := by
  obtain ⟨b, hb, rfl⟩ := Option.map_eq_some_iff.mp hj
  rw [storage] at hb
  cases hl : w.live j with
  | none => simp [hl] at hb
  | some l =>
    rw [hl] at hb
    exact ⟨_, scene_member_of_binding hl hb⟩

theorem accountOf_of_settled (hj : (w.scene k).Settled j) : w.accountOf j = some k := by
  obtain ⟨_, _, -, -, hm, -⟩ := hj
  exact accountOf_of_member hm

theorem Gone.accountOf (hj : w.Gone j) : w.accountOf j = none := by
  simp [World.accountOf, storage, hj.2]

theorem mem_heldJobs_requestsAt :
    j ∈ heldJobs (w.requestsAt k rs) ↔ j ∈ heldJobs rs ∧ w.accountOf j = some k := by
  simp [mem_heldJobs, requestsAt, waiting?]

theorem mem_releasedJobs_requestsAt :
    j ∈ releasedJobs (w.requestsAt k rs) ↔ j ∈ releasedJobs rs ∧ w.accountOf j = some k := by
  simp [mem_releasedJobs, requestsAt, waiting?]

/-- The job that requests make wait is bound to an account. -/
theorem Asks.accountOf_of_held {leaves : Bool} (h : w.Asks leaves rs) (hj : j ∈ heldJobs rs) :
    ∃ k, w.accountOf j = some k := by
  obtain ⟨label, hr⟩ := mem_heldJobs.mp hj
  exact h.homed _ hr j rfl

theorem Asks.accountOf_of_released {leaves : Bool} (h : w.Asks leaves rs)
    (hj : j ∈ releasedJobs rs) : ∃ k, w.accountOf j = some k := by
  obtain ⟨label, hr⟩ := mem_releasedJobs.mp hj
  exact h.homed _ hr j rfl

variable [Scheduler H] {topic : Topic} {args : Json} {job : Job} {ev : Event H} {l : LiveJob}

/-! ### What events keep -/

theorem accountOf_after_call (hl : w.live job.id = some l) (hvalidate : topic ≠ .validate)
    (hnew : topic ≠ .new) (hinactive : topic ≠ .inactive)
    (same : (w.engine.stepOf topic args job l.storage).storage.binding.map JobBinding.account =
      l.storage.binding.map JobBinding.account) :
    (w.after (.call topic args job)).accountOf job.id = w.accountOf job.id := by
  rw [accountOf_eq, handleOf, after_call_storage hl hvalidate hnew hinactive, same, accountOf_eq,
    handleOf, storage_of_live hl]

/-- A job that is bound to a real account stays bound to it until it leaves. -/
theorem Sound.accountOf_after (hs : w.Sound) (h : w.HostOrder ev) (hj : w.accountOf j = some k)
    (ha : w.account k = some a) (real : a.isPlaceholder = false) :
    (w.after ev).accountOf j = some k ∨ ev.leaving = some j := by
  cases ev with
  | feed | reprioritize | scheduler => exact .inl hj
  | call topic args job =>
    by_cases hij : j = job.id
    · subst hij
      obtain ⟨m, hm⟩ := member_of_accountOf hj
      obtain ⟨l, hl, hm⟩ := Option.bind_eq_some_iff.mp hm
      obtain ⟨b, hb, rfl, -⟩ := LiveJob.memberAt_eq_some.mp hm
      have bound := hs.boundAccount hl hb ha
      have stays : (hvalidate : topic ≠ .validate) → (hnew : topic ≠ .new) →
          (hinactive : topic ≠ .inactive) →
          (w.engine.stepOf topic args job l.storage).storage.binding.map JobBinding.account =
            l.storage.binding.map JobBinding.account →
          (w.after (.call topic args job)).accountOf job.id = some b.account.key :=
        fun hvalidate hnew hinactive same =>
          (accountOf_after_call hl hvalidate hnew hinactive same).trans hj
      have priority : (w.engine.priority job l.storage).storage.binding.map JobBinding.account =
          l.storage.binding.map JobBinding.account := by
        obtain ⟨rs, effect⟩ := w.engine.priority_effect job l.storage
        rw [effect.storage_of_real bound real]
      cases topic with
      | validate =>
        left
        rw [accountOf, storage, after_validate_live, Function.update_self]
        exact hj
      | new => exact absurd (hs.known job.id l hl) h
      | inactive => exact .inr rfl
      | depend =>
        obtain ⟨rs, effect⟩ := w.engine.depend_effect job l.storage
        exact .inl (stays (by simp) (by simp) (by simp) effect.account_eq)
      | priority => exact .inl (stays (by simp) (by simp) (by simp) priority)
      | priorityGet => exact .inl (stays (by simp) (by simp) (by simp) priority)
      | run =>
        have effect := w.engine.run_effect job l.storage
        exact .inl (stays (by simp) (by simp) (by simp) effect.account_eq)
      | updateQueue =>
        obtain ⟨-, -, same⟩ :=
          w.engine.updateQueue_effect job l.storage (Engine.proposedQueue args)
        exact .inl (stays (by simp) (by simp) (by simp)
          (congrArg (·.binding.map JobBinding.account) same))
      | queueUpdated =>
        have effect := w.engine.queueUpdated_effect job l.storage
        exact .inl (stays (by simp) (by simp) (by simp) effect.account_eq)
    · left
      rw [← hj, accountOf, accountOf, storage, storage]
      simp [World.after, hij]

/-- A settled job stays settled at its account until it leaves. -/
theorem Sound.settled_after (hs : w.Sound) (h : w.HostOrder ev) (hj : (w.scene k).Settled j) :
    ((w.after ev).scene k).Settled j ∨ ev.leaving = some j := by
  obtain ⟨rs, does⟩ := hs.does h
  rcases (does.step k).settled hj with settled | hnone
  · exact .inl settled
  · obtain ⟨a, m, ha, real, hm, -⟩ := hj
    refine (hs.accountOf_after h (accountOf_of_member hm) ha real).imp_left fun hafter => ?_
    obtain ⟨m', hm'⟩ := member_of_accountOf hafter
    simp [hnone] at hm'

/-- A job that left is gone. -/
theorem Sound.gone_of_leaving (hs : w.Sound) (h : w.HostOrder ev) (hj : ev.leaving = some j) :
    (w.after ev).Gone j := by
  cases ev with
  | feed | reprioritize | scheduler => cases hj
  | call topic args job =>
    cases topic with
    | inactive =>
      cases hj
      obtain ⟨l, hl, -⟩ := h
      exact ⟨arrived_subset_after (hs.known job.id l hl),
        by rw [after_inactive_live, Function.update_self]⟩
    | validate | new | depend | priority | priorityGet | run | updateQueue | queueUpdated =>
      cases hj

/-- A job that is gone stays so. -/
theorem gone_after (h : w.HostOrder ev) (hj : w.Gone j) : (w.after ev).Gone j := by
  refine ⟨arrived_subset_after hj.1, ?_⟩
  cases ev with
  | feed | reprioritize | scheduler => exact hj.2
  | call topic args job =>
    by_cases hij : j = job.id
    · subst hij
      cases topic with
      | validate => rw [after_validate_live, Function.update_self, hj.2]
      | new => exact absurd hj.1 h
      | inactive => rw [after_inactive_live, Function.update_self]
      | depend | priority | priorityGet | run | updateQueue | queueUpdated =>
        obtain ⟨l, hl, -⟩ := h
        simp [hj.2] at hl
    · simpa [World.after, hij] using hj.2

theorem Sound.past_after (hs : w.Sound) (h : w.HostOrder ev) (hj : w.Past j) :
    (w.after ev).Past j := by
  rcases hj with hgone | ⟨k, hsettled⟩
  · exact .inl (gone_after h hgone)
  · rcases hs.settled_after h hsettled with hsettled | hleaving
    · exact .inr ⟨k, hsettled⟩
    · exact .inl (hs.gone_of_leaving h hleaving)

/-- A job past the throttle that is not held is never held again. -/
theorem Sound.free_after (hs : w.Sound) (h : w.HostOrder ev) (hj : w.Free j) :
    (w.after ev).Free j := by
  rcases hj with hgone | ⟨k, hsettled, hheld⟩
  · exact .inl (gone_after h hgone)
  · rcases hs.settled_after h hsettled with hsettled' | hleaving
    · refine .inr ⟨k, hsettled', fun hheld' => ?_⟩
      obtain ⟨rs, does⟩ := hs.does h
      have step := does.step k
      rcases List.mem_append.mp (step.queue.subset (List.mem_append_right _ hheld')) with hi | hi
      · exact hheld hi
      · exact (step.mem_heldJobs hi).2 hsettled
    · exact .inl (hs.gone_of_leaving h hleaving)

omit [Scheduler H] in
/-- A job that is held is not free. -/
theorem Sound.not_free_of_held (hs : w.Sound) (held : j ∈ (w.scene k).held) : ¬ w.Free j := by
  have bound := accountOf_of_settled ((hs.scenes k).settled_of_held held)
  rintro (gone | ⟨k', settled, free⟩)
  · cases bound.symm.trans gone.accountOf
  · obtain rfl : k = k' := Option.some.inj (bound.symm.trans (accountOf_of_settled settled))
    exact free held

namespace Does

variable (hs : w.Sound) (h : w.HostOrder ev) (d : w.Does ev rs)

include hs h d

/-- A job that is held now is past the throttle now, and was not before. -/
theorem past_of_held (hj : j ∈ heldJobs rs) : ¬ w.Past j ∧ (w.after ev).Past j := by
  obtain ⟨k, hk⟩ := d.asks.accountOf_of_held hj
  obtain ⟨hheld, hnew⟩ := (d.step k).mem_heldJobs (mem_heldJobs_requestsAt.mpr ⟨hj, hk⟩)
  have hsettled := ((hs.after h).scenes k).settled_of_held hheld
  refine ⟨?_, .inr ⟨k, hsettled⟩⟩
  rintro (hgone | ⟨k', hsettled'⟩)
  · simp [(gone_after h hgone).accountOf] at hk
  · rcases hs.settled_after h hsettled' with hafter | hleaving
    · obtain rfl : k' = k := Option.some.inj ((accountOf_of_settled hafter).symm.trans hk)
      exact hnew hsettled'
    · simp [(hs.gone_of_leaving h hleaving).accountOf] at hk

/-- A job that is released now is free now, and was not before. -/
theorem free_of_released (hj : j ∈ releasedJobs rs) : ¬ w.Free j ∧ (w.after ev).Free j := by
  obtain ⟨k, hk⟩ := d.asks.accountOf_of_released hj
  obtain ⟨hheld, hheld'⟩ :=
    (d.step k).mem_releasedJobs (hs.scenes k) (mem_releasedJobs_requestsAt.mpr ⟨hj, hk⟩)
  have hsettled := (hs.scenes k).settled_of_held hheld
  refine ⟨hs.not_free_of_held hheld, ?_⟩
  rcases hs.settled_after h hsettled with hsettled' | hleaving
  · exact .inr ⟨k, hsettled', hheld'⟩
  · simp [(hs.gone_of_leaving h hleaving).accountOf] at hk

end Does

end World

end JobAdmission

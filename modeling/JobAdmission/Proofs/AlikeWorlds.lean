import JobAdmission.Proofs.Accounted
import JobAdmission.Proofs.AlikeSteps

/-!
# Worlds that differ in one job

This module compares two worlds, the first of which knows one job more (`World.SameBut`). The job
waits there for its turn at a real account which counts it, or it left (`World.Aside`). It holds no
slot then, and is not released (`World.Sound.notMem_released`).

The worlds stay the same but for the job in all that may happen where the scheduler refuses nothing
(`World.Accepted`): in what happens to others, which goes alike in both (`World.SameBut.after`), and
in the calls on the job itself, which are made in the first one only (`World.SameBut.own`).
-/

namespace JobAdmission

namespace World

variable {H : Type}

/-! ### Runs without refusals -/

section Refusals

variable [Scheduler H] {w : World H} {ev : Event H}

/-- The scheduler refuses nothing in the event. -/
def Accepted (w : World H) : Event H → Prop
  | .call topic args job => HandlerError.refused (w.step topic args job).outcome = false
  | .reprioritize => w.engine.reprioritize.1 = none
  | .feed _ _ | .scheduler _ => True

/-- The next event is in the host's order, and the scheduler refuses nothing in it. -/
def AcceptingOrder (w : World H) (ev : Event H) : Prop := w.HostOrder ev ∧ w.Accepted ev

theorem AcceptingOrder.hostOrder (w : World H) (ev : Event H) (h : w.AcceptingOrder ev) :
    w.HostOrder ev := h.1

instance (w : World H) : DecidablePred w.Accepted
  | .call topic args job =>
    inferInstanceAs (Decidable (HandlerError.refused (w.step topic args job).outcome = false))
  | .reprioritize => inferInstanceAs (Decidable (w.engine.reprioritize.1 = none))
  | .feed _ _ | .scheduler _ => .isTrue trivial

instance (w : World H) : DecidablePred w.AcceptingOrder := fun ev =>
  inferInstanceAs (Decidable (w.HostOrder ev ∧ w.Accepted ev))

/-- A scheduler that refuses nothing refuses no release. -/
theorem Accepted.releases (h : w.Accepted ev) : w.Releases ev := by
  unfold Releases refuses
  split
  · rename_i args job
    split
    · rename_i err answer
      change HandlerError.refused (w.step .inactive args job).outcome = false at h
      rw [answer] at h
      cases h
    · rfl
  · rfl

end Refusals

/-! ### Jobs that wait for their turn -/

section Waiting

variable {w : World H} {j : JobId} {k : AccountKey} {l : LiveJob} {b : JobBinding} {a : Account}

/-- The job is bound to the account of a key, which is real and counts it as active. -/
structure Enlisted (w : World H) (j : JobId) (k : AccountKey) : Prop where
  bound : w.accountOf j = some k
  real : ∃ a, w.account k = some a ∧ a.isPlaceholder = false
  counted : (w.scene k).Counts j

theorem Enlisted.live (h : w.Enlisted j k) : ∃ l, w.live j = some l := by
  cases hl : w.live j with
  | none =>
    have bound := h.bound
    simp [accountOf, storage, hl] at bound
  | some l => exact ⟨l, rfl⟩

theorem Enlisted.home (h : w.Enlisted j k) (hs : w.Sound) (hl : w.live j = some l) :
    ∃ b a, w.engine.boundAccount l.storage = some (b, a) ∧ b.account.key = k ∧
      a.isPlaceholder = false ∧ b.countedActive = true := by
  obtain ⟨b, hb, rfl⟩ := binding_of_accountOf hl h.bound
  obtain ⟨a, ha, real⟩ := h.real
  exact ⟨b, a, hs.boundAccount hl hb ha, rfl, real,
    h.counted a ha real _ (scene_member_of_binding hl hb)⟩

/-- A job of a real account that is not free did not come to the throttle yet, or is held. -/
theorem Enlisted.fresh_or_held (h : w.Enlisted j k) (waits : ¬ w.Free j)
    (hl : w.live j = some l) : l.phase = .fresh ∨ j ∈ (w.scene k).held := by
  by_contra hne
  rw [not_or] at hne
  obtain ⟨b, hb, rfl⟩ := binding_of_accountOf hl h.bound
  obtain ⟨a, ha, real⟩ := h.real
  exact waits (.inr ⟨b.account.key, ⟨a, _, ha, real, scene_member_of_binding hl hb, hne.1⟩, hne.2⟩)

/-- A job that left is held nowhere. -/
theorem Sound.notMem_held_of_gone (hs : w.Sound) (gone : w.Gone j) (ha : w.account k = some a) :
    j ∉ a.usage.gate.held := by
  intro held
  obtain ⟨m, hm⟩ := ((hs.scenes k).books a ha).held j held
  cases (accountOf_of_member hm).symm.trans gone.accountOf

/-- A job of a real account that is not free has no slot. -/
theorem Sound.slotless (hs : w.Sound) (h : w.Enlisted j k) (waits : ¬ w.Free j)
    (hl : w.live j = some l) (hb : w.engine.boundAccount l.storage = some (b, a)) :
    b.runReserved = false ∧ l.phase ≠ .running ∧ j ∉ a.usage.gate.released := by
  obtain ⟨hb, ha⟩ := hs.bound hl hb
  obtain rfl : b.account.key = k :=
    Option.some.inj ((accountOf_of_binding hl hb).symm.trans h.bound)
  have fits := ((hs.scenes b.account.key).books a ha).fits j _ (scene_member_of_binding hl hb)
  obtain ⟨⟨reserved, running⟩, released⟩ :
      Member.Slotless ⟨l.phase, b, l.storage.hasDependency heldLabel⟩ ∧
        j ∉ a.usage.gate.released := by
    rcases h.fresh_or_held waits hl with fresh | held
    · exact ⟨(fits.early (.inl fresh)).1, (fits.early (.inl fresh)).2.2⟩
    · rw [Scene.held_of_account ha] at held
      exact fits.held held
  refine ⟨reserved, fun hp => ?_, released⟩
  cases running.symm.trans (fits.counted.mpr hp)

/-- The job waits for its turn at the real account of a key, or left. -/
structure Aside (w : World H) (j : JobId) (k : AccountKey) : Prop where
  real : ∃ a, w.account k = some a ∧ a.isPlaceholder = false
  state : w.Gone j ∨ w.Enlisted j k ∧ ¬ w.Free j

/-- A job that is bound to its account did not leave. -/
theorem Aside.not_free (h : w.Aside j k) (enlisted : w.Enlisted j k) : ¬ w.Free j := by
  rcases h.state with gone | ⟨-, waits⟩
  · cases enlisted.bound.symm.trans gone.accountOf
  · exact waits

/-- A job that is live waits. -/
theorem Aside.enlisted (h : w.Aside j k) (hl : w.live j = some l) : w.Enlisted j k := by
  rcases h.state with gone | ⟨enlisted, -⟩
  · cases hl.symm.trans gone.2
  · exact enlisted

/-- A job that waits or left is not released, wherever. -/
theorem Sound.notMem_released (hs : w.Sound) (h : w.Aside j k) {k' : AccountKey} {a : Account}
    (ha : w.account k' = some a) : j ∉ a.usage.gate.released := by
  intro hj
  obtain ⟨m, hm⟩ := ((hs.scenes k').books a ha).released j hj
  have bound := accountOf_of_member hm
  rcases h.state with gone | ⟨enlisted, waits⟩
  · cases bound.symm.trans gone.accountOf
  · obtain rfl : k' = k := Option.some.inj (bound.symm.trans enlisted.bound)
    obtain ⟨l, hl⟩ := enlisted.live
    obtain ⟨b, a', hb, rfl, -⟩ := enlisted.home hs hl
    cases ha.symm.trans (hs.bound hl hb).2
    exact (hs.slotless enlisted waits hl hb).2.2 hj

variable [Scheduler H] {ev : Event H}

/-- A job of a real account stays so until it leaves. -/
theorem Enlisted.after (h : w.Enlisted j k) (hs : w.Sound) (ho : w.HostOrder ev) :
    (w.after ev).Enlisted j k ∨ ev.leaving = some j := by
  obtain ⟨a, ha, real⟩ := h.real
  refine (hs.accountOf_after ho h.bound ha real).imp_left fun bound => ?_
  refine ⟨bound, real_after ev h.real, ?_⟩
  obtain ⟨rs, step⟩ := hs.scene_step ho k
  refine step.counts (hs.scenes k) (fun _ a' _ ha' _ => ?_) h.counted
  cases ha.symm.trans ha'
  exact real

end Waiting

/-! ### Worlds that are the same but for a job -/

section SameBut

variable {w w' : World H} {x : JobId} {k : AccountKey} {like : H → H → Prop}

/-- What a job adds to the active jobs of an account, if it is counted where it is bound. -/
def surplus (w : World H) (x : JobId) (h : Handle) : Counter :=
  if w.handleOf x = some h then 1 else 0

/-- The worlds are the same but for the job, which only the first one knows. -/
structure SameBut (like : H → H → Prop) (x : JobId) (w w' : World H) : Prop where
  engine : w.engine.SameBut like x (w.surplus x) w'.engine
  arrived : ∀ j, j ≠ x → (j ∈ w'.arrived ↔ j ∈ w.arrived)
  live : ∀ j, j ≠ x → w'.live j = w.live j

theorem surplus_of_gone (h : w.Gone x) (home : Handle) : w.surplus x home = 0 := by
  have bound := h.accountOf
  rw [accountOf_eq, Option.map_eq_none_iff] at bound
  rw [surplus, bound, if_neg (by simp)]

theorem surplus_congr (h : w'.handleOf x = w.handleOf x) : w'.surplus x = w.surplus x := by
  funext home
  rw [surplus, surplus, h]

/-- Where the counters are exact, a job that is counted as active is one of those counted. -/
theorem Sound.active_pos (hs : w.Sound) (C : (w.scene k).Counted) {a : Account}
    (ha : w.account k = some a) {j : JobId} {m : Member} (hm : (w.scene k).member j = some m)
    (counted : m.binding.countedActive = true) : 0 < a.usage.active := by
  have pos := flag_le_tally (w.scene k).member (·.countedActive) ((hs.scenes k).known j m hm)
  rw [hm, Member.flag_some, counted, ← (C a ha).active] at pos
  exact UInt32.lt_iff_toNat_lt.mpr pos

/-- Where the counters are exact, two jobs that are counted as active are two of those counted. -/
theorem Sound.one_lt_active (hs : w.Sound) (C : (w.scene k).Counted) {a : Account}
    (ha : w.account k = some a) {i j : JobId} {mi mj : Member} (hij : i ≠ j)
    (hi : (w.scene k).member i = some mi) (hj : (w.scene k).member j = some mj)
    (counted : mi.binding.countedActive = true) (counted' : mj.binding.countedActive = true) :
    1 < a.usage.active := by
  have both : ({i, j} : Finset JobId).card ≤
      tally (w.scene k).arrived (w.scene k).member (·.countedActive) := by
    refine Finset.card_le_card fun n hn => ?_
    rw [Finset.mem_filter]
    rcases Finset.mem_insert.mp hn with rfl | hn
    · exact ⟨(hs.scenes k).known n mi hi, by simp [hi, counted]⟩
    · rw [Finset.mem_singleton] at hn
      subst hn
      exact ⟨(hs.scenes k).known n mj hj, by simp [hj, counted']⟩
  rw [Finset.card_pair hij, ← (C a ha).active] at both
  exact UInt32.lt_iff_toNat_lt.mpr both

/-- A job that is counted where another one waits is not the only one counted there. -/
theorem Sound.surplus_lt_active (hs : w.Sound) (C : (w.scene k).Counted) (aside : w.Aside x k)
    {j : JobId} (hj : j ≠ x) {b : JobBinding} {a : Account}
    (hb : w.engine.boundAccount (w.storage j) = some (b, a)) (extra : w.surplus x a.handle ≠ 0)
    (counted : b.countedActive = true) : w.surplus x a.handle < a.usage.active := by
  have bound : w.handleOf x = some a.handle := by
    by_contra unbound
    exact extra (if_neg unbound)
  rw [surplus, if_pos bound]
  have bound : w.accountOf x = some a.key := by rw [accountOf_eq, bound]; rfl
  rcases aside.state with gone | ⟨enlisted, -⟩
  · cases bound.symm.trans gone.accountOf
  obtain rfl : a.key = k := Option.some.inj (bound.symm.trans enlisted.bound)
  cases hl : w.live j with
  | none => simp [World.storage, hl, Engine.boundAccount] at hb
  | some l =>
    rw [storage_of_live hl] at hb
    obtain ⟨hb, ha⟩ := hs.bound hl hb
    have mj := scene_member_of_binding hl hb
    rw [← Ledger.key_of_account? ha] at mj ha
    obtain ⟨lx, hlx⟩ := enlisted.live
    obtain ⟨bx, ax, hbx, key, -, countedx⟩ := enlisted.home hs hlx
    have mx := scene_member_of_binding hlx (Engine.boundAccount_eq_some.mp hbx).1
    rw [key] at mx
    exact hs.one_lt_active C ha hj mj mx counted countedx

namespace SameBut

theorem storage (h : w.SameBut like x w') {j : JobId} (hj : j ≠ x) :
    w'.storage j = w.storage j := by
  rw [World.storage, World.storage, h.live j hj]

theorem holds (h : w.SameBut like x w') {j : JobId} (hj : j ≠ x) : w'.holds j = w.holds j := by
  rw [World.holds, World.holds, h.storage hj]
  obtain ⟨hb, hb'⟩ | ⟨b, a, a', hb, hb', same⟩ := h.engine.boundAccount (w.storage j)
  · rw [hb, hb']
  · rw [hb, hb', Option.any_some, Option.any_some, Bool.eq_iff_iff]
    simp [Gate.isHeld, same.usage.held, hj]

variable {ev : Event H} {topic : Topic} {args : Json} {job : Job}

/-- What comes in the host's order comes so without the job. -/
theorem hostOrder (h : w.SameBut like x w') (other : ev.job? ≠ some x) (order : w.HostOrder ev) :
    w'.HostOrder ev := by
  cases ev with
  | feed kind rows =>
    cases kind with
    | accounts => exact order
    | queues | projects => trivial
  | reprioritize | scheduler => trivial
  | call topic args job =>
    have hj : job.id ≠ x := fun hx => other (congrArg some hx)
    have due : ∀ l, w.Due topic job l → w'.Due topic job l := by
      intro l due
      refine ⟨due.userid, due.bank, due.phase, fun run => ?_, due.alloc⟩
      rw [h.holds hj]
      exact due.notHeld run
    cases topic with
    | validate => trivial
    | new => exact fun arrived => order ((h.arrived job.id hj).mp arrived)
    | depend | priority | priorityGet | run | inactive | updateQueue | queueUpdated =>
      obtain ⟨l, hl, hdue⟩ := order
      exact ⟨l, (h.live job.id hj).trans hl, due l hdue⟩

variable [Scheduler H]

/-- A call on another job goes alike, if the counters are exact where the job waits, and the job is
not released in it. -/
theorem step (h : w.SameBut like x w') (apart : Scheduler.Apart x like) (hs : w.Sound)
    (C : (w.scene k).Counted) (aside : w.Aside x k) (hj : job.id ≠ x)
    (order : w.HostOrder (.call topic args job)) (accepted : w.Accepted (.call topic args job))
    (spared : ∀ k a, (w.after (.call topic args job)).account k = some a →
      x ∉ a.usage.gate.released) :
    (w.step topic args job).SameBut like x (w.surplus x) (w'.step topic args job) := by
  have stays : topic = .inactive → ∀ b a, w.engine.boundAccount (w.storage job.id) = some (b, a) →
      x ∉ (a.departed job.id b job.allocObserved).usage.gate.released := by
    rintro rfl b a hb
    obtain ⟨l, hl, -⟩ := order
    rw [storage_of_live hl] at hb
    apply spared b.account.key
    rw [account, ledger_of_leaving hl hb accepted.releases,
      Ledger.account?_put_of_kept (hs.bound hl hb).2 Account.departed_handle, if_pos rfl]
  rw [World.step, World.step, h.storage hj]
  exact h.engine.stepOf apart hj (fun b a hb => hs.surplus_lt_active C aside hj hb) stays accepted

/-- Whatever happens to others keeps the worlds the same but for the job, if it is not released
in it, and the account that it is bound to is given no limit on active jobs. -/
theorem after (h : w.SameBut like x w') (apart : Scheduler.Apart x like) (hs : w.Sound)
    (C : (w.scene k).Counted) (aside : w.Aside x k)
    (other : ev.job? ≠ some x) (order : w.HostOrder ev) (accepted : w.Accepted ev)
    (spared : ∀ k a, (w.after ev).account k = some a → x ∉ a.usage.gate.released)
    (unlimited : ∀ k, w.accountOf x = some k →
      ∀ terms ∈ ev.granted k, terms.activeLimit = none) :
    (w.after ev).SameBut like x (w'.after ev) := by
  cases ev with
  | feed kind rows =>
    refine ⟨h.engine.ingest kind rows fun home counted => ?_, h.arrived, h.live⟩
    apply unlimited
    have bound : w.handleOf x = some home := by
      by_contra unbound
      exact counted (if_neg unbound)
    rw [accountOf_eq, bound]
    rfl
  | reprioritize =>
    refine ⟨?_, h.arrived, h.live⟩
    rcases hr : Scheduler.request w.engine.host .reprioritizeAll with ⟨_ | err, host⟩
    · obtain ⟨host', hr', hlike⟩ := apart.others h.engine.host (by simp [HostRequest.job?]) hr
      have moved : (w.after .reprioritize).engine = { w.engine with host } := by
        simp [World.after, Engine.reprioritize, hr]
      have moved' : (w'.after .reprioritize).engine = { w'.engine with host := host' } := by
        simp [World.after, Engine.reprioritize, hr']
      rw [moved, moved']
      exact h.engine.withHost hlike
    · simp [Accepted, Engine.reprioritize, hr] at accepted
  | scheduler host => exact ⟨h.engine.withHost (apart.refl host), h.arrived, h.live⟩
  | call topic args job =>
    have hj : job.id ≠ x := fun hx => other (congrArg some hx)
    have step := h.step apart hs C aside hj order accepted spared
    refine ⟨?_, fun j hjx => ?_, fun j hjx => ?_⟩
    · rw [surplus_congr (handleOf_after_of_ne other)]
      exact step.engine
    · by_cases hnew : topic = .new
      · simp [World.after, hnew, h.arrived j hjx]
      · rw [after_call_arrived hnew, after_call_arrived hnew, h.arrived j hjx]
    · by_cases hij : j = job.id
      · subst hij
        rw [live_after_call, live_after_call]
        unfold liveAfter
        rw [h.live job.id hj, step.outcome, step.storage]
      · have apart : (.call topic args job : Event H).job? ≠ some j := fun hji =>
          hij (Option.some.inj hji).symm
        rw [live_after_of_ne apart, live_after_of_ne apart, h.live j hjx]

/-- The scheduler refuses nothing without the job either. -/
theorem accepted (h : w.SameBut like x w') (apart : Scheduler.Apart x like) (hs : w.Sound)
    (C : (w.scene k).Counted) (aside : w.Aside x k)
    (other : ev.job? ≠ some x) (order : w.HostOrder ev) (accepted : w.Accepted ev)
    (spared : ∀ k a, (w.after ev).account k = some a → x ∉ a.usage.gate.released) :
    w'.Accepted ev := by
  cases ev with
  | feed | scheduler => trivial
  | reprioritize =>
    rcases hr : Scheduler.request w.engine.host .reprioritizeAll with ⟨_ | err, host⟩
    · obtain ⟨host', hr', -⟩ := apart.others h.engine.host (by simp [HostRequest.job?]) hr
      simp [Accepted, Engine.reprioritize, hr']
    · simp [Accepted, Engine.reprioritize, hr] at accepted
  | call topic args job =>
    have hj : job.id ≠ x := fun hx => other (congrArg some hx)
    have step := h.step apart hs C aside hj order accepted spared
    show HandlerError.refused (w'.step topic args job).outcome = false
    rw [step.outcome]
    exact accepted

/-- A call on the job itself is made in the first world alone. -/
theorem alone (h : w.SameBut like job.id w')
    (engine : (w.after (.call topic args job)).engine.SameBut like job.id
      ((w.after (.call topic args job)).surplus job.id) w'.engine) :
    (w.after (.call topic args job)).SameBut like job.id w' where
  engine := engine
  arrived j hj := by
    by_cases hnew : topic = .new
    · simp [World.after, hnew, hj, h.arrived j hj]
    · rw [after_call_arrived hnew, h.arrived j hj]
  live j hj := by
    have other : (.call topic args job : Event H).job? ≠ some j := fun hx =>
      hj (Option.some.inj hx).symm
    rw [live_after_of_ne other, h.live j hj]

end SameBut

variable [Scheduler H] {topic : Topic} {args : Json} {job : Job} {l : LiveJob}

/-- A job that comes to the throttle of a real account and still waits after it is held. -/
theorem Sound.held_of_depend (hs : w.Sound) (enlisted : w.Enlisted job.id k)
    (hl : w.live job.id = some l) (fresh : l.phase = .fresh)
    (accepted : w.Accepted (.call .depend args job))
    (enlisted' : (w.after (.call .depend args job)).Enlisted job.id k)
    (waits : ¬ (w.after (.call .depend args job)).Free job.id) :
    (w.engine.depend job l.storage).outcome = .ok .held := by
  obtain ⟨b, a, hb, rfl, real, -⟩ := enlisted.home hs hl
  change HandlerError.refused
    ((w.engine.depend job (w.storage job.id)).outcome.map Reply.ofDepend) = false at accepted
  rw [storage_of_live hl] at accepted
  have live : (w.after (.call .depend args job)).live = Function.update w.live job.id (some { l with
      phase := l.phase.next .depend ((w.engine.depend job l.storage).outcome.map Reply.ofDepend)
      storage := (w.engine.depend job l.storage).storage }) :=
    after_call_live hl (by simp) (by simp) (by simp)
  have ledger : (w.after (.call .depend args job)).engine.ledger =
      (w.engine.depend job l.storage).engine.ledger := after_call_ledger hl
  obtain ⟨rs, effect⟩ := w.engine.depend_effect job l.storage
  generalize (w.engine.depend job l.storage).outcome = outcome at *
  generalize (w.engine.depend job l.storage).engine.ledger = after at *
  generalize (w.engine.depend job l.storage).storage = storage at *
  generalize (w.engine.depend job l.storage).engine.host = host at *
  cases effect with
  | unbound hb' => simp [hb] at hb'
  | waved hb' hp =>
    cases hb.symm.trans hb'
    simp [real] at hp
  | held => rfl
  | refused => cases accepted
  | @admitted _ _ a' _ hb' _ hg =>
    -- the gate let the job through, so it is free
    cases hb.symm.trans hb'
    obtain ⟨hb, ha⟩ := hs.bound hl hb
    have place :=
      ((hs.scenes b.account.key).books a ha).fits job.id _ (scene_member_of_binding hl hb)
    obtain ⟨-, -, passed⟩ := Account.enterGate_proceed hg
    have own : a'.handle = a.handle := by
      rw [passed]
      rfl
    have account : (w.after (.call .depend args job)).account b.account.key = some a' := by
      rw [World.account, ledger, Ledger.account?_put_of_kept ha own, if_pos rfl]
    have now := congrFun live job.id
    rw [Function.update_self] at now
    rcases enlisted'.fresh_or_held waits now with early | held
    · rw [fresh] at early
      cases early
    · rw [Scene.held_of_account account, passed] at held
      exact absurd held (place.early (.inl fresh)).2.1

/-- A call on a job that waits and does not leave in it. -/
theorem SameBut.own_of_step (h : w.SameBut like job.id w') (hs : w.Sound)
    (aside : w.Aside job.id k) (order : w.HostOrder (.call topic args job))
    (hl : w.live job.id = some l) (stays : (.call topic args job : Event H).leaving = none)
    (step : (w.engine.stepOf topic args job l.storage).engine.SameBut like job.id
      (w.surplus job.id) w'.engine) : (w.after (.call topic args job)).SameBut like job.id w' := by
  have enlisted := aside.enlisted hl
  have enlisted' : (w.after (.call topic args job)).Enlisted job.id k :=
    (enlisted.after hs order).resolve_right (by simp [stays])
  apply h.alone
  have home := ((hs.after order).handleOf_eq enlisted'.bound).trans
    (hs.handleOf_eq enlisted.bound).symm
  rw [surplus_congr home, after_call_engine hl]
  exact step

/-- A call on a job that waits or left keeps the worlds the same but for the job, if the job
waits or is gone after it as well. -/
theorem SameBut.own (h : w.SameBut like job.id w') (apart : Scheduler.Apart job.id like)
    (hs : w.Sound) (C : (w.scene k).Counted) (aside : w.Aside job.id k)
    (order : w.HostOrder (.call topic args job)) (accepted : w.Accepted (.call topic args job))
    (aside' : (w.after (.call topic args job)).Aside job.id k) :
    (w.after (.call topic args job)).SameBut like job.id w' := by
  have due := order
  cases topic with
  | validate =>
    have told : w.engine.ledger.onlyPlaceholders = false := by
      obtain ⟨a, ha, real⟩ := aside.real
      by_contra only
      rw [Bool.not_eq_false, Ledger.onlyPlaceholders_iff] at only
      cases (only k a ha).symm.trans real
    have still : (w.after (.call .validate args job)).handleOf job.id = w.handleOf job.id := by
      rw [handleOf, World.storage, after_validate_live, Function.update_self]
      rfl
    apply h.alone
    rw [surplus_congr still]
    exact h.engine.validate_own args told
  | new =>
    rcases aside.state with gone | ⟨enlisted, -⟩
    · exact absurd gone.1 order
    · obtain ⟨l, hl⟩ := enlisted.live
      exact absurd (hs.known job.id l hl) order
  | depend =>
    obtain ⟨l, hl, due⟩ := due
    have enlisted := aside.enlisted hl
    have enlisted' := (enlisted.after hs order).resolve_right (by simp [Event.leaving])
    have fresh : l.phase = .fresh := by simpa [Phase.admits] using due.phase
    have held := hs.held_of_depend enlisted hl fresh accepted enlisted'
      (aside'.not_free enlisted')
    obtain ⟨b, a, hb, -⟩ := enlisted.home hs hl
    exact h.own_of_step hs aside order hl rfl (h.engine.depend_own apart hb held)
  | priority =>
    obtain ⟨l, hl, -⟩ := due
    obtain ⟨b, a, hb, -, real, -⟩ := (aside.enlisted hl).home hs hl
    exact h.own_of_step hs aside order hl rfl (h.engine.priority_own (.inl rfl) hb real)
  | priorityGet =>
    obtain ⟨l, hl, -⟩ := due
    obtain ⟨b, a, hb, -, real, -⟩ := (aside.enlisted hl).home hs hl
    exact h.own_of_step hs aside order hl rfl (h.engine.priority_own (.inr rfl) hb real)
  | run =>
    -- a job that waits is not ready, or is held
    obtain ⟨l, hl, due⟩ := due
    have enlisted := aside.enlisted hl
    have ready : l.phase = .ready := by simpa [Phase.admits] using due.phase
    obtain ⟨b, a, hb, rfl, -⟩ := enlisted.home hs hl
    have notHeld := due.notHeld rfl
    rw [World.holds, storage_of_live hl, hb, Option.any_some] at notHeld
    rcases enlisted.fresh_or_held (aside.not_free enlisted) hl with fresh | held
    · cases ready.symm.trans fresh
    · rw [Scene.held_of_account (hs.bound hl hb).2] at held
      simp [Gate.isHeld, held] at notHeld
  | inactive =>
    obtain ⟨l, hl, due⟩ := due
    have gone := hs.gone_of_leaving order rfl
    have enlisted := aside.enlisted hl
    obtain ⟨b, a, hb, rfl, -, counted⟩ := enlisted.home hs hl
    obtain ⟨reserved, idle, fresh⟩ := hs.slotless enlisted (aside.not_free enlisted) hl hb
    have alloc : job.allocObserved = false := by
      rw [← Bool.not_eq_true, due.alloc rfl]
      exact idle
    obtain ⟨hb', ha⟩ := hs.bound hl hb
    have home : w.handleOf job.id = some b.account := by
      rw [handleOf, storage_of_live hl, hb']
      rfl
    have pos := hs.active_pos C ha (scene_member_of_binding hl hb') counted
    apply h.alone
    rw [after_call_engine hl]
    refine h.engine.inactive_own hb counted pos reserved fresh alloc ?_ (surplus_of_gone gone) ?_
    · rw [surplus, if_pos home]
    · intro h hk
      rw [surplus, home, if_neg fun hbk => hk (Option.some.inj hbk).symm]
  | updateQueue =>
    obtain ⟨l, hl, -⟩ := due
    exact h.own_of_step hs aside order hl rfl h.engine.updateQueue_own
  | queueUpdated =>
    obtain ⟨l, hl, -⟩ := due
    exact h.own_of_step hs aside order hl rfl h.engine.queueUpdated_own

/-- A new job that is bound to a real account is one more active job there, and does not matter
otherwise. -/
theorem Sound.sameBut_new (hs : w.Sound) (banked : w.engine.ledger.Banked)
    (apart : Scheduler.Apart job.id like) (order : w.HostOrder (.call .new args job))
    (accepted : w.Accepted (.call .new args job))
    (bound : (w.after (.call .new args job)).accountOf job.id = some k) {a : Account}
    (ha : (w.after (.call .new args job)).account k = some a) (real : a.isPlaceholder = false)
    (unlimited : a.terms.activeLimit = none) :
    (w.after (.call .new args job)).SameBut like job.id w ∧
      (w.after (.call .new args job)).Enlisted job.id k := by
  have hl : w.live job.id = none := hs.not_live order
  have engine := after_new_engine args hl
  have now : (w.after (.call .new args job)).live job.id =
      some ⟨job.userid, job.bank, .fresh, (w.engine.newJob job {}).storage⟩ := by
    rw [after_new_live hl, Function.update_self]
  have answer : HandlerError.refused (w.engine.newJob job {}).outcome = false := by
    change HandlerError.refused ((w.engine.newJob job (w.storage job.id)).outcome.map fun _ =>
      Reply.accepted) = false at accepted
    rwa [HandlerError.refused_map, storage_of_not_live hl] at accepted
  have notHeld : ∀ (h : Handle) (a : Account), w.engine.ledger.objects[h]? = some a →
      job.id ∉ a.usage.gate.held := by
    intro h a ha held
    obtain ⟨m, hm⟩ := ((hs.scenes h.key).books a (hs.keyed.kept ha)).held job.id held
    simp [scene, hl] at hm
  obtain ⟨b, hb, rfl⟩ := binding_of_accountOf now bound
  have there : (w.engine.newJob job {}).engine.boundAccount (w.engine.newJob job {}).storage =
      some (b, a) := by
    rw [← engine]
    exact (hs.after order).boundAccount now hb ha
  obtain ⟨counted, same⟩ :=
    Engine.SameBut.newJob_own banked notHeld apart answer there real unlimited
  constructor
  · refine ⟨?_, fun j hj => ?_, fun j hj => ?_⟩
    · have surplus : (w.after (.call .new args job)).surplus job.id =
          fun h => if b.account = h then 1 else 0 := by
        have home : (w.after (.call .new args job)).handleOf job.id = some b.account := by
          rw [handleOf, storage_of_live now, hb]
          rfl
        funext h
        simp [World.surplus, home]
      rw [surplus, engine]
      exact same
    · simp [World.after, hj]
    · rw [after_new_live hl, Function.update_of_ne hj]
  · refine ⟨bound, ⟨a, ha, real⟩, fun a' _ _ m hm => ?_⟩
    rw [scene_member_of_binding now hb] at hm
    cases hm
    exact counted

end SameBut

end World

end JobAdmission

import JobAdmission.Proofs.Wakeup

/-!
# Caps on running jobs

This module proves that a cap holds: at an account that a record created with a cap, and
whose cap was never lowered since, the running jobs and the reserved slots together stay
within the cap in every state of a run (`World.running_within_cap`), however its jobs came
to it. If the cap was always the same and the scheduler never refuses to release a job,
then no slot is idle while jobs are held, and no other job passes them
(`World.no_idle_slot`).
-/

namespace JobAdmission

/-- The terms cap the running jobs, and no cap is lower than one before. -/
def RisingCaps (told : List Terms) : Prop :=
  ∃ caps : List UInt32, told.map (·.runLimit) = caps.map .capped ∧ caps.Pairwise (· ≤ ·)

namespace World

variable {H : Type} [Scheduler H] {w : World H} {k : AccountKey} {es : List (Event H)}
  {told : List Terms} {c : UInt32} {caps : List UInt32}

/-- In the course of these events a record creates the account of a key, and from then on
they grant it these terms, in order. -/
def CreatedUnder (w : World H) (k : AccountKey) (es : List (Event H)) (told : List Terms) : Prop :=
  ∃ pre ev post, es = pre ++ ev :: post ∧ (w.afterAll pre).account k = none ∧
    ev.granted k ≠ [] ∧ told = (ev :: post).flatMap (Event.granted k)

/-! ### Runs under limits -/

/-- The events of a rule keep a bound on an account by a limit that the feed tells, as long as
it tells no lower one. -/
structure Bounds {X : Type} (rule : World H → Event H → Prop) (k : AccountKey) (f : Terms → X)
    (g : UInt32 → X) (B : Scene → UInt32 → Prop) : Prop where
  /-- The rule is the host's order, or stronger. -/
  hostOrder : ∀ w ev, rule w ev → w.HostOrder ev
  /-- The bound is kept. -/
  keep : ∀ (w : World H) (ev : Event H) (c : UInt32) (caps : List UInt32), w.Sound → rule w ev →
    (ev.granted k).map f = caps.map g → (∀ c' ∈ caps, c ≤ c') → B (w.scene k) c →
      ∃ c' ∈ c :: caps, B ((w.after ev).scene k) c'
  /-- The bound holds of an account that a record creates. -/
  create : ∀ (w : World H) (ev : Event H) (caps : List UInt32), w.Sound → rule w ev →
    (ev.granted k).map f = caps.map g → w.account k = none → ev.granted k ≠ [] →
      ∃ c' ∈ caps, B ((w.after ev).scene k) c'

section Bounds

variable {X : Type} {rule : World H → Event H → Prop} {f : Terms → X} {g : UInt32 → X}
  {B : Scene → UInt32 → Prop}

/-- A run keeps a bound, as long as the limit is not lowered. -/
theorem Bounds.of_obeys (hB : Bounds rule k f g B) (h : w.Obeys rule es) (hs : w.Sound)
    (hcaps : (es.flatMap (Event.granted k)).map f = caps.map g)
    (rising : (c :: caps).Pairwise (· ≤ ·)) (C : B (w.scene k) c) :
    ∃ c' ∈ c :: caps, B ((w.afterAll es).scene k) c' := by
  induction es generalizing w c caps with
  | nil => exact ⟨c, List.mem_cons_self, C⟩
  | cons ev es ih =>
    rw [List.flatMap_cons, List.map_append, eq_comm, List.map_eq_append_iff] at hcaps
    obtain ⟨now, later, rfl, hnow, hlater⟩ := hcaps
    rw [List.pairwise_cons, List.pairwise_append] at rising
    obtain ⟨hle, -, rising, hle'⟩ := rising
    obtain ⟨c', hc', C'⟩ := hB.keep w ev c now hs h.1 hnow.symm
      (fun x hx => hle x (List.mem_append_left _ hx)) C
    have rising' : (c' :: later).Pairwise (· ≤ ·) := by
      refine List.pairwise_cons.mpr ⟨fun x hx => ?_, rising⟩
      rcases List.mem_cons.mp hc' with rfl | hc'
      · exact hle x (List.mem_append_right _ hx)
      · exact hle' c' hc' x hx
    obtain ⟨c'', hc'', C''⟩ := ih h.2 (hs.after (hB.hostOrder w ev h.1)) hlater.symm rising' C'
    refine ⟨c'', ?_, C''⟩
    rcases List.mem_cons.mp hc'' with rfl | hc''
    · exact List.mem_cons.mpr ((List.mem_cons.mp hc').imp_right (List.mem_append_left _))
    · exact List.mem_cons_of_mem _ (List.mem_append_right _ hc'')

/-- An account that a run creates under rising limits is within one of them in the end. -/
theorem Bounds.of_created (hB : Bounds rule k f g B) (h : w.Obeys rule es) (hs : w.Sound)
    (hk : w.CreatedUnder k es told) (hcaps : told.map f = caps.map g)
    (rising : caps.Pairwise (· ≤ ·)) : ∃ c ∈ caps, B ((w.afterAll es).scene k) c := by
  obtain ⟨pre, ev, post, rfl, hnone, hne, rfl⟩ := hk
  obtain ⟨hpre, hpost⟩ := obeys_append.mp h
  have hs : (w.afterAll pre).Sound := (hpre.mono hB.hostOrder).sound hs
  rw [List.flatMap_cons, List.map_append, eq_comm, List.map_eq_append_iff] at hcaps
  obtain ⟨now, later, rfl, hnow, hlater⟩ := hcaps
  obtain ⟨-, rising, hle⟩ := List.pairwise_append.mp rising
  obtain ⟨c, hc, C⟩ := hB.create _ ev now hs hpost.1 hnow.symm hnone hne
  obtain ⟨c', hc', C'⟩ := hB.of_obeys hpost.2 (hs.after (hB.hostOrder _ ev hpost.1)) hlater.symm
    (List.pairwise_cons.mpr ⟨hle c hc, rising⟩) C
  refine ⟨c', ?_, afterAll_append w pre (ev :: post) ▸ C'⟩
  rcases List.mem_cons.mp hc' with rfl | hc'
  · exact List.mem_append_left _ hc
  · exact List.mem_append_right _ hc'

end Bounds

/-- In the host's order, accounts stay within their caps. -/
theorem bounds_capped (k : AccountKey) :
    Bounds (H := H) HostOrder k (·.runLimit) .capped Scene.Capped where
  hostOrder _ _ h := h
  keep w ev c caps hs h hcaps hle C := by
    obtain ⟨rs, step⟩ := hs.scene_step h k
    exact step.capped (hs.scenes k) hcaps hle C
  create w ev caps hs h hcaps hnone hne := by
    obtain ⟨rs, step⟩ := hs.scene_step h k
    exact step.created (hs.scenes k) hcaps hnone hne

/-- At an account that a record created with a cap, and that was only told caps at least as
large since, the running jobs and the reserved slots are within the cap. -/
theorem running_within_cap {config : Config} {host : H} {audit : Option AuditTrail}
    (h : (start config host audit).Obeys HostOrder es)
    (hk : (start config host audit).CreatedUnder k es told) (rising : RisingCaps told) :
    ∃ a c, ((start config host audit).afterAll es).account k = some a ∧
      a.terms.runLimit = .capped c ∧
      a.usage.running.toNat + a.usage.gate.reserved.toNat ≤ c.toNat ∧
      a.usage.running.toNat ≤ c.toNat := by
  obtain ⟨caps, hcaps, rising⟩ := rising
  obtain ⟨c, -, a, ha, C⟩ :=
    (bounds_capped k).of_created h (start_sound config host audit) hk hcaps rising
  have within : a.usage.running.toNat + a.usage.gate.reserved.toNat ≤ c.toNat := C.occupied_le
  exact ⟨a, c, ha, C.cap, within, by omega⟩

/-- In the sample, a second record raises the cap from one slot to two. -/
theorem sample_within_cap :
    Sample.start.Obeys HostOrder Sample.raised ∧
      Sample.start.CreatedUnder Sample.key Sample.raised
        (Sample.raised.flatMap (Event.granted Sample.key)) ∧
      RisingCaps (Sample.raised.flatMap (Event.granted Sample.key)) ∧
      ∃ a c, (Sample.start.afterAll Sample.raised).account Sample.key = some a ∧
        a.terms.runLimit = .capped c ∧
        a.usage.running.toNat + a.usage.gate.reserved.toNat ≤ c.toNat ∧
        a.usage.running.toNat ≤ c.toNat := by
  have obeys : Sample.start.Obeys HostOrder Sample.raised := by decide +kernel
  have created : Sample.start.CreatedUnder Sample.key Sample.raised
      (Sample.raised.flatMap (Event.granted Sample.key)) :=
    ⟨[], .feed .accounts [Sample.record 1], Sample.raised.tail, rfl, by decide +kernel,
      by decide +kernel, rfl⟩
  have rising : RisingCaps (Sample.raised.flatMap (Event.granted Sample.key)) :=
    ⟨[1, 2], by decide +kernel, by decide⟩
  exact ⟨obeys, created, rising, running_within_cap obeys created rising⟩

/-! ### Who is let through -/

/-- What is kept for a job binds it to the account of the key. -/
def BoundTo (w : World H) (j : JobId) (k : AccountKey) : Prop :=
  ∃ b, (w.storage j).binding = some b ∧ w.engine.ledger.handle? k = some b.account

/-- The account of the key lets no job through: a job that is bound to it does not pass the
throttle, and a job that is moved to it when it asks for its priority is held there. -/
structure Closed (w : World H) (k : AccountKey) : Prop where
  depend : ∀ args job, w.BoundTo job.id k → (w.step .depend args job).outcome ≠ .ok .accepted
  priority : ∀ topic args job, topic = .priority ∨ topic = .priorityGet → ¬ w.BoundTo job.id k →
    (w.after (.call topic args job)).BoundTo job.id k →
      (w.after (.call topic args job)).holds job.id = true

/-- A real account without a slot left does not let a job of its own pass the throttle. -/
theorem depend_of_full {e : Engine H} (job : Job) {s : JobStorage} {b : JobBinding} {a : Account}
    {cap : ℕ} (hb : e.boundAccount s = some (b, a)) (real : a.isPlaceholder = false)
    (hcap : a.terms.runLimit.cap = some cap) (full : cap ≤ a.usage.occupied) :
    (e.depend job s).outcome ≠ .ok .proceed := by
  intro ho
  obtain ⟨rs, effect⟩ := e.depend_effect job s
  rw [ho] at effect
  generalize (e.depend job s).engine.host = host at effect
  generalize (e.depend job s).engine.ledger = ledger at effect
  generalize (e.depend job s).storage = s' at effect
  cases effect with
  | waved hb' hp =>
    cases hb.symm.trans hb'
    simp [real] at hp
  | admitted hb' _ hg =>
    cases hb.symm.trans hb'
    have hold := Account.enterGate_of_full (j := job.id) hcap full
    simp [hg] at hold

/-- A job that is moved to a real account without a slot left is held there. -/
theorem holds_of_rebound {w w' : World H} {job : Job} {l : LiveJob} {a : Account} {cap : ℕ}
    {outcome : Except HandlerError Engine.PriorityOutcome} {rs : List HostRequest} {host : H}
    {ledger : Ledger} {s : JobStorage} (hl : w.live job.id = some l)
    (ha : w.account k = some a)
    (hcap : a.terms.runLimit.cap = some cap) (full : cap ≤ a.usage.occupied)
    (h : Engine.PriorityEffect w.engine job l.storage outcome rs host ledger s)
    (hledger : w'.engine.ledger = ledger) (hstorage : w'.storage job.id = s)
    (before : ¬ w.BoundTo job.id k) (after : w'.BoundTo job.id k) : w'.holds job.id = true := by
  subst hstorage
  obtain ⟨b', hb', bound⟩ := after
  -- the account of the key is the one that it was
  have bound : w.engine.ledger.handle? k = some b'.account := by
    have kept := Ledger.handle?_of_account? ha
    rw [hledger, h.passedBy.growsTo.kept k _ kept] at bound
    exact kept.trans bound
  have same : w'.storage job.id = l.storage → w'.holds job.id = true := by
    intro hsame
    refine absurd ⟨b', ?_, bound⟩ before
    rw [storage_of_live hl, ← hsame, hb']
  generalize hs' : w'.storage job.id = s' at h hb'
  cases h with
  | unbound => exact same hs'
  | prioritized => exact same hs'
  | stayed => exact same hs'
  | refused => exact same hs'
  | @rebound b p real a' decision factor _ _ _ _ hb hp hf hg =>
    have hfound := Ledger.object_of_account? (account_of_found hf).2
    have own : a'.handle = real.handle := by
      obtain ⟨gate, rfl⟩ := Account.eq_withGate_of_enterGate hg
      rfl
    -- the account that the job is moved to is the one without a slot left
    have moved : real.handle = b'.account := by
      cases decision <;> cases hb' <;> exact own.symm
    obtain rfl : a = real := by
      rw [moved, ← Ledger.account?_of_handle? bound] at hfound
      exact Option.some.inj (ha.symm.trans hfound)
    have held : decision = .hold := by
      have hold := Account.enterGate_of_full (j := job.id) hcap full
      rwa [hg] at hold
    subst held
    have placed : w'.engine.ledger.objects[a'.handle]? =
        some (a'.countActive.withQueueFactor factor) := by
      have same : (a'.countActive.withQueueFactor factor).handle = a.handle := own
      rw [hledger, Ledger.getElem?_objects_put_of_mem hfound same, own, if_pos rfl]
    rw [holds, hs', Engine.boundAccount_eq_some.mpr ⟨Engine.reboundStorage_binding .., placed⟩]
    obtain ⟨-, rfl⟩ := Account.enterGate_hold hg
    simp [Gate.isHeld, Account.withQueueFactor, Account.countActive, Account.withGate]

/-- A real account without a slot left lets no job through. -/
theorem closed_of_full {w : World H} {a : Account} {cap : ℕ}
    (ha : w.account k = some a) (real : a.isPlaceholder = false)
    (hcap : a.terms.runLimit.cap = some cap) (full : cap ≤ a.usage.occupied) : w.Closed k where
  depend args job bound := by
    obtain ⟨b, hb, hk⟩ := bound
    have hb := Engine.boundAccount_eq_some.mpr
      ⟨hb, (Ledger.account?_of_handle? hk).symm.trans ha⟩
    have refused := depend_of_full job hb real hcap full
    intro ho
    obtain ⟨outcome, h, answer⟩ := Step.outcome_map_eq_ok.mp ho
    cases outcome with
    | proceed => exact refused h
    | held => cases answer
  priority topic args job ht before after := by
    cases hl : w.live job.id with
    | none =>
      have empty : (w.after (.call topic args job)).storage job.id = {} := by
        rcases ht with rfl | rfl <;> simp [storage, World.after, liveAfter, hl]
      obtain ⟨b, hb, -⟩ := after
      simp [empty] at hb
    | some l =>
      obtain ⟨rs, effect⟩ := w.engine.priority_effect job l.storage
      obtain ⟨hstorage, hledger⟩ := after_priority args ht hl
      exact holds_of_rebound hl ha hcap full effect hledger hstorage before after

/-- Where only one cap is told, no cap is below it. -/
theorem floor_of_capped {granted : List Terms}
    (hcaps : granted.map (·.runLimit) = caps.map fun _ => .capped c) :
    ∀ t ∈ granted, ∀ cap, t.runLimit.cap = some cap → c.toNat ≤ cap := by
  intro t ht cap hcap
  have told : t.runLimit ∈ granted.map (·.runLimit) := List.mem_map_of_mem ht
  rw [hcaps] at told
  obtain ⟨-, -, same⟩ := List.mem_map.mp told
  rw [← same] at hcap
  exact (Option.some.inj hcap).le

/-- While the scheduler never refuses to release a job, an account that is only told one cap stays
within it and as busy as it allows. -/
theorem bounds_full (k : AccountKey) (c : UInt32) :
    Bounds (H := H) ReleasingOrder k (·.runLimit) (fun _ => .capped c)
      fun s _ => s.Capped c ∧ s.Busy c.toNat where
  hostOrder := ReleasingOrder.hostOrder
  keep w ev c' caps hs h hcaps _ := by
    rintro ⟨C, busy⟩
    obtain ⟨rs, step⟩ := hs.scene_step h.1 k
    rw [h.2] at step
    have same : (ev.granted k).map (·.runLimit) =
        (List.replicate caps.length c).map .capped := by simp [hcaps]
    obtain ⟨c₁, hc₁, C₁⟩ := step.capped (hs.scenes k) same
      (fun x hx => (List.eq_of_mem_replicate hx).symm ▸ UInt32.le_refl c) C
    obtain rfl : c₁ = c := (List.mem_cons.mp hc₁).elim id List.eq_of_mem_replicate
    refine ⟨c', List.mem_cons_self, C₁, step.busy (hs.scenes k) ?_ C.slotsCounted busy⟩
    exact floor_of_capped hcaps
  create w ev caps hs h hcaps hnone hne := by
    obtain ⟨rs, step⟩ := hs.scene_step h.1 k
    rw [h.2] at step
    have same : (ev.granted k).map (·.runLimit) =
        (List.replicate caps.length c).map .capped := by simp [hcaps]
    obtain ⟨c₁, hc₁, C₁⟩ := step.created (hs.scenes k) same hnone hne
    obtain rfl := List.eq_of_mem_replicate hc₁
    obtain ⟨c', hc'⟩ : ∃ c', c' ∈ caps := List.exists_mem_of_ne_nil _ fun hnil => hne (by
      simpa [hnil] using hcaps)
    refine ⟨c', hc', C₁, step.busy (hs.scenes k) (floor_of_capped hcaps) ?_ ?_⟩
    · intro a ha
      cases hnone.symm.trans ha
    · intro a ha
      cases hnone.symm.trans ha

/-- At an account that a record created with a cap, and that was told no other one since:
while jobs are held, all slots are in use, and no other job passes them. -/
theorem no_idle_slot {config : Config} {host : H} {audit : Option AuditTrail}
    (h : (start config host audit).Obeys ReleasingOrder es)
    (hk : (start config host audit).CreatedUnder k es told)
    (same : ∀ t ∈ told, t.runLimit = .capped c) :
    ∃ a, ((start config host audit).afterAll es).account k = some a ∧
      (a.usage.gate.held ≠ [] →
        a.usage.running.toNat + a.usage.gate.reserved.toNat = c.toNat ∧
          ((start config host audit).afterAll es).Closed k) := by
  have hs := start_sound config host audit
  have hcaps : told.map (·.runLimit) =
      (List.replicate told.length c).map fun _ => .capped c := by
    rw [List.map_replicate]
    exact List.eq_replicate_iff.mpr ⟨by simp, by simpa using same⟩
  have rising : (List.replicate told.length c).Pairwise (· ≤ ·) :=
    List.pairwise_replicate.mpr (.inr (UInt32.le_refl c))
  obtain ⟨-, -, ⟨a, ha, C⟩, busy⟩ := (bounds_full k c).of_created h hs hk hcaps rising
  have hcap : a.terms.runLimit.cap = some c.toNat := by rw [C.cap]; rfl
  refine ⟨a, ha, fun held => ?_⟩
  have full : c.toNat ≤ a.usage.occupied := C.counted.occupied ▸ (busy a ha).busy held
  exact ⟨C.occupied_le.antisymm full, closed_of_full ha C.real hcap full⟩

/-- In the sample, the cap is always one slot. -/
theorem sample_no_idle_slot :
    Sample.start.Obeys ReleasingOrder Sample.events ∧
      Sample.start.CreatedUnder Sample.key Sample.events
        (Sample.events.flatMap (Event.granted Sample.key)) ∧
      (∀ t ∈ Sample.events.flatMap (Event.granted Sample.key), t.runLimit = .capped 1) ∧
      ∃ a, (Sample.start.afterAll Sample.events).account Sample.key = some a ∧
        a.usage.running.toNat + a.usage.gate.reserved.toNat = 1 ∧
        (Sample.start.afterAll Sample.events).Closed Sample.key := by
  have created : Sample.start.CreatedUnder Sample.key Sample.events
      (Sample.events.flatMap (Event.granted Sample.key)) :=
    ⟨[], .feed .accounts [Sample.record 1], Sample.events.tail, rfl, by decide +kernel,
      by decide +kernel, rfl⟩
  have same : ∀ t ∈ Sample.events.flatMap (Event.granted Sample.key), t.runLimit = .capped 1 := by
    decide +kernel
  obtain ⟨a, ha, full⟩ := no_idle_slot Sample.obeys created same
  have seen : ((Sample.start.afterAll Sample.events).account Sample.key).map
      (fun a => a.usage.gate.held) = some [8] := by
    decide +kernel
  have there : (Sample.start.afterAll Sample.events).account Sample.key = some a := ha
  have held : a.usage.gate.held = [8] := by
    rw [there] at seen
    exact Option.some.inj seen
  obtain ⟨all, closed⟩ := full (by simp [held])
  exact ⟨Sample.obeys, created, same, a, ha, all, closed⟩

end World

end JobAdmission

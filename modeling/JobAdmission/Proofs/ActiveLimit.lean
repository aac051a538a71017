import JobAdmission.Proofs.Capacity
import JobAdmission.Proofs.Held

/-!
# Limits on active jobs

This module proves that an account that a record created with a limit on active jobs, and
that was told no lower one since, has no more active jobs than its limit, as long as no job
is moved to it while it is full (`World.active_within_limit`). A new job is counted only if
there is room (`Move.active_cases`). A job that waited at a placeholder is counted when it
is moved to its real account, and nothing asks for room then: two such jobs take an account
with one place beyond its limit (`World.moved_beyond_limit`).
-/

namespace JobAdmission

variable {k : AccountKey} {j i : JobId} {refusing : Bool} {rs : List HostRequest} {a a' : Account}
  {m m' : Option Member} {c : UInt32}

/-- A job that leaves makes no job more active. -/
theorem Account.active_leave_le {b : JobBinding} {ran freed : Bool}
    (hl : a.leave j b ran = (freed, a')) : a'.usage.active.toNat ≤ a.usage.active.toNat := by
  obtain ⟨-, rfl⟩ := Account.leave_eq hl
  show (if b.countedActive then a.usage.active.down else a.usage.active).toNat ≤ _
  split
  · simp
  · exact le_rfl

/-- A call counts at most one job as active: a new one if there is room, or one that is
moved to the account. -/
theorem Move.active_cases (h : Move k j refusing rs a m a' m') :
    a'.usage.active.toNat ≤ a.usage.active.toNat ∨ a'.usage.active = a.usage.active.up ∧
      (a.atActiveLimit = false ∨ m = none ∧ ∃ n, m' = some n ∧ n.phase ≠ .fresh) := by
  cases h with
  | sit | wave | refuse | prioritize | depart | settle | start => exact .inl le_rfl
  | enroll _ room => exact .inr ⟨rfl, .inl room⟩
  | proceed _ hg | hold _ hg =>
    obtain ⟨gate, rfl⟩ := Account.eq_withGate_of_enterGate hg
    exact .inl le_rfl
  | moveIn _ hg hp | moveInHeld _ hg hp =>
    obtain ⟨gate, rfl⟩ := Account.eq_withGate_of_enterGate hg
    refine .inr ⟨rfl, .inr ⟨rfl, _, rfl, ?_⟩⟩
    rcases hp with rfl | rfl <;> simp
  | leave hl => exact .inl (Account.active_leave_le hl)
  | keep _ hl _ =>
    have less := Account.active_leave_le hl
    exact .inl less
  | free hl hr =>
    obtain ⟨-, rfl⟩ := Account.releaseNext_none hr
    exact .inl (Account.active_leave_le hl)
  | release hl hr =>
    have less := Account.active_leave_le hl
    obtain ⟨_, -, -, rfl⟩ := Account.releaseNext_some hr
    exact .inl less

/-- Where there is room for an active job, one more is within the limit. -/
theorem Account.active_up_le_of_room (hc : a.terms.activeLimit = some c)
    (room : a.atActiveLimit = false) : a.usage.active.up.toNat ≤ c.toNat := by
  have below : a.usage.active < c := by simpa [Account.atActiveLimit, hc] using room
  exact (Counter.toNat_up_le _).trans (UInt32.lt_iff_toNat_lt.mp below)

namespace Scene

variable {s s' : Scene} {granted : List Terms} {limits : List UInt32}

/-- The account is there, and has no more active jobs than its limit. -/
def Limited (s : Scene) (c : UInt32) : Prop :=
  ∃ a, s.account = some a ∧ a.terms.activeLimit = some c ∧ a.usage.active.toNat ≤ c.toNat

/-- An account within its limit stays within its limits, if no job is moved to it while it is
full. -/
theorem Step.limited (h : Scene.Step k refusing granted rs s s')
    (hlimits : granted.map (·.activeLimit) = limits.map some) (hle : ∀ c' ∈ limits, c ≤ c')
    (room : ∀ i n a, s.member i = none → s'.member i = some n → n.phase ≠ .fresh →
      s.account = some a → a.atActiveLimit = false)
    (C : s.Limited c) : ∃ c' ∈ c :: limits, s'.Limited c' := by
  obtain ⟨a, ha, hc, within⟩ := C
  cases h with
  | @told _ _ terms hlast =>
    obtain ⟨c', hc', hlimit⟩ := exists_cap_of_told hlimits hlast
    refine ⟨c', List.mem_cons_of_mem _ hc', _, rfl, ?_⟩
    rw [ha]
    exact ⟨hlimit, within.trans (UInt32.le_iff_toNat_le.mp (hle c' hc'))⟩
  | quiet => exact ⟨c, List.mem_cons_self, a, ha, hc, within⟩
  | found _ hnone | foundFor _ _ hnone => simp [hnone] at ha
  | @move _ S j rs a₁ a' m' _ _ ha' h =>
    obtain rfl : a₁ = a := by simpa [ha'] using ha
    refine ⟨c, List.mem_cons_self, a', rfl, h.frame.2.2 ▸ hc, ?_⟩
    rcases h.active_cases with hless | ⟨hmore, hroom | ⟨hm, n, hn, hp⟩⟩
    · exact hless.trans within
    · exact hmore ▸ Account.active_up_le_of_room hc hroom
    · exact hmore ▸ Account.active_up_le_of_room hc (room j n a₁ hm (by simp [hn]) hp ha)

/-- An account that records create is within one of the limits that they grant. -/
theorem Step.limited_of_created (h : Scene.Step k refusing granted rs s s')
    (hlimits : granted.map (·.activeLimit) = limits.map some) (hnone : s.account = none)
    (hne : granted ≠ []) : ∃ c' ∈ limits, s'.Limited c' := by
  cases h with
  | @told _ _ terms hlast =>
    obtain ⟨c', hc', hlimit⟩ := exists_cap_of_told hlimits hlast
    refine ⟨c', hc', _, rfl, ?_⟩
    rw [hnone]
    exact ⟨hlimit, Nat.zero_le _⟩
  | quiet | found | foundFor | move => exact absurd rfl hne

end Scene

/-- All terms limit the active jobs, and no limit is lower than one before. -/
def RisingActiveLimits (told : List Terms) : Prop :=
  ∃ limits : List UInt32, told.map (·.activeLimit) = limits.map some ∧ limits.Pairwise (· ≤ ·)

namespace World

variable {H : Type} [Scheduler H] {w : World H} {ev : Event H}

/-- In this event, a live job is moved to the account of the key, which has as many active jobs
as it may have. -/
def Overfills (w : World H) (k : AccountKey) (ev : Event H) : Prop :=
  ∃ j ∈ w.arrived, (w.live j).isSome = true ∧ w.accountOf j ≠ some k ∧
    (w.after ev).accountOf j = some k ∧ ∃ a ∈ w.account k, a.atActiveLimit = true

/-- The host's order, where no job is moved to the account of the key while it is full. -/
def RoomyOrder (k : AccountKey) (w : World H) (ev : Event H) : Prop :=
  w.HostOrder ev ∧ ¬ w.Overfills k ev

instance (k : AccountKey) (w : World H) : DecidablePred (RoomyOrder k w) := fun ev =>
  have : Decidable (w.Overfills k ev) := inferInstanceAs (Decidable (∃ j ∈ w.arrived, _))
  inferInstanceAs (Decidable (w.HostOrder ev ∧ ¬ w.Overfills k ev))

/-- A live job that is not new was live before. -/
theorem live_before (h : w.HostOrder ev) {l : LiveJob} (hl : (w.after ev).live j = some l)
    (hp : l.phase ≠ .fresh) : ∃ l, w.live j = some l := by
  cases ev with
  | feed | reprioritize | scheduler => exact ⟨l, hl⟩
  | call topic args job =>
    by_cases hj : j = job.id
    · subst hj
      cases topic with
      | validate =>
        rw [after_validate_live, Function.update_self] at hl
        exact ⟨l, hl⟩
      | new =>
        cases hbefore : w.live job.id with
        | none =>
          rw [after_new_live hbefore, Function.update_self] at hl
          cases hl
          exact absurd rfl hp
        | some l => exact ⟨l, rfl⟩
      | depend | priority | priorityGet | run | inactive | updateQueue | queueUpdated =>
        obtain ⟨l, hl, -⟩ := h
        exact ⟨l, hl⟩
    · exact ⟨l, by simpa [World.after, hj] using hl⟩

/-- Accounts that are not overfilled stay within their limits on active jobs. -/
theorem bounds_limited (k : AccountKey) :
    Bounds (H := H) (RoomyOrder k) k (·.activeLimit) some Scene.Limited where
  hostOrder _ _ h := h.1
  keep w ev c limits hs h hlimits hle C := by
    obtain ⟨rs, step⟩ := hs.scene_step h.1 k
    refine step.limited hlimits hle (fun i n a hnone hsome hp ha => ?_) C
    by_contra full
    obtain ⟨l', hl', hn⟩ := Option.bind_eq_some_iff.mp hsome
    obtain ⟨b, -, -, rfl⟩ := LiveJob.memberAt_eq_some.mp hn
    obtain ⟨l, hl⟩ := live_before h.1 hl' hp
    refine h.2 ⟨i, hs.known i l hl, by simp [hl], fun hk => ?_, accountOf_of_member hsome, a, ha,
      by simpa using full⟩
    obtain ⟨m, hm⟩ := member_of_accountOf hk
    simp [hnone] at hm
  create w ev limits hs h hlimits hnone hne := by
    obtain ⟨rs, step⟩ := hs.scene_step h.1 k
    exact step.limited_of_created hlimits hnone hne

/-- An account that a record created with a limit on active jobs, and that was only told limits
at least as large since, has no more active jobs than its limit, if no job was moved to it
while it was full. -/
theorem active_within_limit {config : Config} {host : H} {audit : Option AuditTrail}
    {es : List (Event H)} {told : List Terms}
    (h : (start config host audit).Obeys (RoomyOrder k) es)
    (hk : (start config host audit).CreatedUnder k es told) (rising : RisingActiveLimits told) :
    ∃ a c, ((start config host audit).afterAll es).account k = some a ∧
      a.terms.activeLimit = some c ∧ a.usage.active.toNat ≤ c.toNat := by
  obtain ⟨limits, hlimits, rising⟩ := rising
  obtain ⟨c, -, a, ha, hc, within⟩ := (bounds_limited k).of_created h
    (start_sound config host audit) hk hlimits rising
  exact ⟨a, c, ha, hc, within⟩

/-! ### Jobs that are moved -/

namespace Sample

/-- Two jobs wait at a placeholder for their account, and are moved to it when a record has
created it. -/
def moving (limit : Int64) : List (Event Host) :=
  [.call .new .null (job 7), .call .depend .null (job 7), .call .new .null (job 8),
   .call .depend .null (job 8), .feed .accounts [recordIn key.bank limit],
   .call .priority .null (job 7), .call .priority .null (job 8)]

/-- What the account is granted in it. -/
def grantedMoving (limit : Int64) : List Terms :=
  ((moving limit).drop 4).flatMap (Event.granted key)

end Sample

/-- In the sample, there is room for both jobs. -/
theorem sample_within_limit :
    Sample.start.Obeys (RoomyOrder Sample.key) (Sample.moving 2) ∧
      Sample.start.CreatedUnder Sample.key (Sample.moving 2) (Sample.grantedMoving 2) ∧
      RisingActiveLimits (Sample.grantedMoving 2) ∧
      ∃ a c, (Sample.start.afterAll (Sample.moving 2)).account Sample.key = some a ∧
        a.terms.activeLimit = some c ∧ a.usage.active.toNat ≤ c.toNat := by
  have obeys : Sample.start.Obeys (RoomyOrder Sample.key) (Sample.moving 2) := by decide +kernel
  have created : Sample.start.CreatedUnder Sample.key (Sample.moving 2) (Sample.grantedMoving 2) :=
    ⟨(Sample.moving 2).take 4, .feed .accounts [Sample.recordIn Sample.key.bank 2],
      (Sample.moving 2).drop 5, rfl, by decide +kernel, by decide +kernel, rfl⟩
  have rising : RisingActiveLimits (Sample.grantedMoving 2) := ⟨[2], by decide +kernel, by decide⟩
  exact ⟨obeys, created, rising, active_within_limit obeys created rising⟩

/-- If there is room for one of the two jobs, both are moved to the account all the same, and
it has more active jobs than its limit. -/
theorem moved_beyond_limit :
    Sample.start.Obeys HostOrder (Sample.moving 1) ∧
      Sample.start.CreatedUnder Sample.key (Sample.moving 1) (Sample.grantedMoving 1) ∧
      RisingActiveLimits (Sample.grantedMoving 1) ∧
      ∃ a, (Sample.start.afterAll (Sample.moving 1)).account Sample.key = some a ∧
        a.terms.activeLimit = some 1 ∧ a.usage.active = 2 := by
  have obeys : Sample.start.Obeys HostOrder (Sample.moving 1) := by decide +kernel
  have created : Sample.start.CreatedUnder Sample.key (Sample.moving 1) (Sample.grantedMoving 1) :=
    ⟨(Sample.moving 1).take 4, .feed .accounts [Sample.recordIn Sample.key.bank 1],
      (Sample.moving 1).drop 5, rfl, by decide +kernel, by decide +kernel, rfl⟩
  have rising : RisingActiveLimits (Sample.grantedMoving 1) := ⟨[1], by decide +kernel, by decide⟩
  have seen : ((Sample.start.afterAll (Sample.moving 1)).account Sample.key).map
      (fun a => (a.terms.activeLimit, a.usage.active)) = some (some 1, 2) := by
    decide +kernel
  obtain ⟨a, ha, hseen⟩ := Option.map_eq_some_iff.mp seen
  exact ⟨obeys, created, rising, a, ha, congrArg Prod.fst hseen, congrArg Prod.snd hseen⟩

end World

end JobAdmission

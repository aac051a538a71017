import JobAdmission.Proofs.Counting

/-!
# Slots in use

This module proves the two bounds on the slots in use at an account. Under a cap that is
never lowered, they stay within the cap (`Account.Capped`): a job runs only with a slot
that it has since it passed the gate, so every job on its way has one or waits for one. A cap
is a number of 32 bits, so the counters of the slots are exact there. While jobs are held, the
slots in use stay at a number that no cap goes below (`Account.Busy`): a job is held only when
the cap is reached, and who frees a slot hands it to the next held job. Both are kept by every
move of a job (`Move.capped`, `Move.busy`), the second one only while the counters of the slots
are exact and the scheduler does not refuse to release a job.
-/

namespace JobAdmission

variable {k : AccountKey} {j : JobId} {refusing : Bool} {a a' : Account} {m m' : Option Member}
  {S : Finset JobId} {f : JobId → Option Member} {c : UInt32} {n : ℕ} {rs : List HostRequest}

/-! ### Not too many -/

/-- A job that passed the gate or waits at it has a slot, or is known to the gate. -/
def Member.Placed (m : Member) (g : Gate) (j : JobId) : Prop :=
  m.phase = .waiting ∨ m.phase = .ready →
    m.binding.runReserved = true ∨ j ∈ g.held ∨ j ∈ g.released

/-- The account is real, its counters of slots are exact, the slots in use are within its cap,
and every job on its way has its place. -/
structure Account.Capped (a : Account) (c : UInt32) (S : Finset JobId)
    (f : JobId → Option Member) : Prop where
  real : a.isPlaceholder = false
  cap : a.terms.runLimit = .capped c
  counted : a.usage.SlotsCounted S f
  within : a.usage.taken S f ≤ c.toNat
  placed : ∀ i n, f i = some n → n.Placed a.usage.gate i

theorem Account.Capped.occupied_le (C : a.Capped c S f) : a.usage.occupied ≤ c.toNat :=
  C.counted.occupied ▸ C.within

/-- One job and the gate change together. -/
theorem Member.placed_update {g g' : Gate} (placed : ∀ i n, f i = some n → n.Placed g i)
    (others : ∀ i, i ≠ j → i ∈ g.held ∨ i ∈ g.released → i ∈ g'.held ∨ i ∈ g'.released)
    (self : ∀ n, m' = some n → n.Placed g' j) :
    ∀ i n, Function.update f j m' i = some n → n.Placed g' i := by
  intro i n hn
  by_cases hij : i = j
  · subst hij
    rw [Function.update_self] at hn
    exact self n hn
  · rw [Function.update_of_ne hij] at hn
    intro hp
    exact (placed i n hn hp).imp_right (others i hij)

/-- A job that leaves changes the place of no other job. -/
theorem Account.leave_others {b : JobBinding} {ran freed : Bool}
    (hl : a.leave j b ran = (freed, a')) {i : JobId} (hij : i ≠ j)
    (hi : i ∈ a.usage.gate.held ∨ i ∈ a.usage.gate.released) :
    i ∈ a'.usage.gate.held ∨ i ∈ a'.usage.gate.released := by
  obtain ⟨-, rfl⟩ := Account.leave_eq hl
  exact hi.imp (fun h => Gate.mem_held_withdraw.mpr ⟨hij, h⟩)
    fun h => Gate.mem_released_withdraw.mpr ⟨hij, h⟩

/-- A job that is released has its place still. -/
theorem Account.releaseNext_others {next : JobId} (hr : a.releaseNext = (some next, a')) {i : JobId}
    (hi : i ∈ a.usage.gate.held ∨ i ∈ a.usage.gate.released) :
    i ∈ a'.usage.gate.held ∨ i ∈ a'.usage.gate.released := by
  obtain ⟨rest, hh, -, rfl⟩ := Account.releaseNext_some hr
  rcases hi with hi | hi
  · rcases List.mem_cons.mp (hh ▸ hi) with rfl | hi
    · exact .inr (Gate.mem_insert.mpr (.inl rfl))
    · exact .inl hi
  · exact .inr (Gate.mem_insert.mpr (.inr hi))

/-- A call on a job leaves every job on its way in its place. -/
theorem Move.placed (h : Move k j refusing rs a m a' m') (hm : f j = m) (C : a.Capped c S f) :
    ∀ i n, Function.update f j m' i = some n → n.Placed a'.usage.gate i := by
  have hcap : a.terms.runLimit.cap = some c.toNat := by rw [C.cap]; rfl
  have gone : ∀ {a₁ : Account} {b : JobBinding} {ran freed : Bool},
      a.leave j b ran = (freed, a₁) →
        ∀ i n, Function.update f j none i = some n → n.Placed a₁.usage.gate i := fun hl =>
    Member.placed_update C.placed (fun _ => Account.leave_others hl) (by simp)
  cases h with
  | sit hp | wave hp | depart hp => simp [C.real] at hp
  | enroll | refuse =>
    refine Member.placed_update C.placed (fun _ _ hi => hi) ?_
    rintro n ⟨⟩
    simp [Member.Placed]
  | proceed _ hg | moveIn _ hg _ =>
    obtain ⟨rfl, -, rfl⟩ := Account.enterGate_proceed hg
    refine Member.placed_update C.placed (fun _ _ hi => hi) ?_
    rintro n ⟨⟩ -
    exact .inl (by simp [hcap])
  | hold _ hg | moveInHeld _ hg _ =>
    obtain ⟨-, rfl⟩ := Account.enterGate_hold hg
    refine Member.placed_update C.placed (fun i _ hi => hi.imp_left (List.mem_append_left _)) ?_
    rintro n ⟨⟩ -
    exact .inr (.inl (List.mem_append_right _ List.mem_cons_self))
  | @prioritize _ b p marked =>
    refine Member.placed_update C.placed (fun _ _ hi => hi) ?_
    rintro n ⟨⟩ hp
    have onWay : p = .waiting ∨ p = .ready := by
      by_cases hw : p = .waiting
      · exact .inl hw
      · simpa [hw] using hp
    exact C.placed j ⟨p, b, marked⟩ hm onWay
  | @settle _ b p _ marked =>
    refine Member.placed_update C.placed (fun _ _ hi => hi) ?_
    rintro n ⟨⟩ hp
    exact C.placed j ⟨p, b, marked⟩ hm hp
  | start =>
    refine Member.placed_update C.placed ?_ ?_
    · intro i hij hi
      exact hi.imp_right fun h => Gate.mem_released_freeSlot.mpr ⟨hij, h⟩
    · rintro n ⟨⟩
      simp [Member.Placed]
  | leave hl => exact gone hl
  | keep _ hl _ =>
    have placed := gone hl
    exact placed
  | free hl hr =>
    obtain ⟨-, rfl⟩ := Account.releaseNext_none hr
    exact gone hl
  | release hl hr =>
    intro i n hi hp
    exact (gone hl i n hi hp).imp_right (Account.releaseNext_others hr)

/-- A call on a job keeps the slots in use within the cap. -/
theorem Move.within (h : Move k j refusing rs a m a' m') (hm : f j = m) (B : a.usage.Books f)
    (hj : j ∈ S) (C : a.Capped c S f) :
    a'.usage.taken S (Function.update f j m') ≤ c.toNat := by
  have hcap : a.terms.runLimit.cap = some c.toNat := by rw [C.cap]; rfl
  have within := C.within
  have occupied := C.counted.occupied
  cases h with
  | sit hp | wave hp | depart hp => simp [C.real] at hp
  | enroll | refuse | prioritize | settle =>
    exact (Usage.taken_keep (u := a.usage) hj rfl (by simp [hm]) (by simp [hm])).le.trans within
  | proceed _ hg | moveIn _ hg _ =>
    obtain ⟨-, room, rfl⟩ := Account.enterGate_proceed hg
    have room := room _ hcap
    refine (Usage.taken_update_le (u := a.usage) hj rfl (by simp [hm])).trans ?_
    omega
  | hold _ hg | moveInHeld _ hg _ =>
    obtain ⟨-, rfl⟩ := Account.enterGate_hold hg
    exact (Usage.taken_keep (u := a.usage) hj rfl (by simp [hm]) (by simp [hm])).le.trans within
  | @start _ b _ _ hh =>
    have taken := B.taken_start hj hm
    have slot : a.usage.gate.hasSlot j b.runReserved = true := by
      rw [Gate.hasSlot, Bool.or_eq_true]
      refine (C.placed j _ hm (.inr rfl)).imp_right fun hi => ?_
      exact Std.ExtTreeSet.mem_iff_contains.mp (hi.resolve_left hh)
    rw [slot, Bool.toNat_true] at taken
    omega
  | leave hl | keep _ hl _ =>
    have taken := B.taken_leave hj hm decide_eq_true_iff hl
    exact (Nat.le_of_add_right_le taken.le).trans within
  | free hl hr =>
    obtain ⟨-, rfl⟩ := Account.releaseNext_none hr
    have taken := B.taken_leave hj hm decide_eq_true_iff hl
    omega
  | release hl hr =>
    have left := C.counted.leave B hj hm decide_eq_true_iff hl
    rw [(B.leave hl).taken_releaseNext hr]
    obtain ⟨rest, -, room, -⟩ := Account.releaseNext_some hr
    rw [left.occupied] at room
    obtain ⟨-, rfl⟩ := Account.leave_eq hl
    exact room c.toNat hcap

/-- A call on a job keeps an account within its cap. -/
theorem Move.capped (h : Move k j refusing rs a m a' m') (hm : f j = m) (B : a.usage.Books f)
    (hj : j ∈ S) (C : a.Capped c S f) : a'.Capped c S (Function.update f j m') := by
  obtain ⟨-, kind, terms⟩ := h.frame
  have cap : a'.terms.runLimit = .capped c := by rw [terms, C.cap]
  have within := h.within hm B hj C
  refine ⟨?_, cap, ?_, within, h.placed hm C⟩
  · rw [Account.isPlaceholder, kind]
    exact C.real
  · exact h.slotsCounted hm hj (fun hp => by simp [C.real] at hp) B C.counted
      (.of_capped cap within)

/-! ### Not too few -/

/-- The cap is not below this number, and while jobs are held, at least this many slots are
in use. -/
structure Account.Busy (a : Account) (n : ℕ) (S : Finset JobId) (f : JobId → Option Member) :
    Prop where
  floor : ∀ c, a.terms.runLimit.cap = some c → n ≤ c
  busy : a.usage.gate.held ≠ [] → n ≤ a.usage.taken S f

variable {f' : JobId → Option Member}

/-- Where no job more is held and no slot less is in use, an account stays busy. -/
theorem Account.Busy.mono (hb : a.Busy n S f) (terms : a'.terms = a.terms)
    (held : a'.usage.gate.held ≠ [] → a.usage.gate.held ≠ [])
    (taken : a.usage.taken S f ≤ a'.usage.taken S f') : a'.Busy n S f' where
  floor := terms ▸ hb.floor
  busy h := (hb.busy (held h)).trans taken

/-- An account is busy if its cap is reached. -/
theorem Account.Busy.of_full (hb : a.Busy n S f) (terms : a'.terms = a.terms) {cap : ℕ}
    (hcap : a.terms.runLimit.cap = some cap) (full : cap ≤ a'.usage.taken S f') :
    a'.Busy n S f' where
  floor := terms ▸ hb.floor
  busy _ := (hb.floor cap hcap).trans full

/-- A job that leaves holds no other one up. -/
theorem Account.held_of_leave {b : JobBinding} {ran freed : Bool}
    (hl : a.leave j b ran = (freed, a')) (h : a'.usage.gate.held ≠ []) :
    a.usage.gate.held ≠ [] := by
  obtain ⟨-, rfl⟩ := Account.leave_eq hl
  obtain ⟨i, hi⟩ := List.exists_mem_of_ne_nil _ h
  exact List.ne_nil_of_mem (Gate.mem_held_withdraw.mp hi).2

/-- A call on a job keeps an account busy, if the counters of its slots are exact and the
scheduler does not refuse to release a job. -/
theorem Move.busy (h : Move k j false rs a m a' m') (hm : f j = m) (B : a.usage.Books f)
    (hj : j ∈ S) (plain : a.isPlaceholder = true → ∀ n, f j = some n →
      n.Plain ∧ j ∉ a.usage.gate.held ∧ j ∉ a.usage.gate.released)
    (C : a.usage.SlotsCounted S f) (hb : a.Busy n S f) :
    a'.Busy n S (Function.update f j m') := by
  have terms := h.frame.2.2
  cases h with
  | sit | enroll | refuse | prioritize | settle =>
    exact hb.mono rfl id (Usage.taken_keep (u := a.usage) hj rfl (by simp [hm]) (by simp [hm])).ge
  | @wave _ b =>
    have idle : b.runReserved = false := ((B.fits j _ hm).early (.inl rfl)).1.1
    exact hb.mono rfl id
      (Usage.taken_keep (u := a.usage) hj rfl (by simp [hm]) (by simp [hm, idle])).ge
  | @depart _ b _ hp =>
    have idle : b.runReserved = false ∧ b.countedRunning = false := (plain hp _ hm).1.slotless
    exact hb.mono rfl id
      (Usage.taken_keep (u := a.usage) hj rfl (by simp [hm, idle.2]) (by simp [hm, idle.1])).ge
  | @proceed _ _ b _ _ _ hg =>
    have idle : b.runReserved = false := ((B.fits j _ hm).early (.inl rfl)).1.1
    obtain ⟨-, -, rfl⟩ := Account.enterGate_proceed hg
    exact hb.mono rfl id
      (Usage.taken_le_update (u := a.usage) hj rfl (by simp [hm]) (by simp [hm, idle]))
  | moveIn _ hg _ =>
    obtain ⟨-, -, rfl⟩ := Account.enterGate_proceed hg
    exact hb.mono rfl id
      (Usage.taken_le_update (u := a.usage) hj rfl (by simp [hm]) (by simp [hm]))
  | hold _ hg | moveInHeld _ hg _ =>
    obtain ⟨⟨cap, hcap, full⟩, rfl⟩ := Account.enterGate_hold hg
    rw [C.occupied] at full
    refine hb.of_full rfl hcap (full.trans ?_)
    exact (Usage.taken_keep (u := a.usage) hj rfl (by simp [hm]) (by simp [hm])).ge
  | @start _ b =>
    have taken := B.taken_start hj hm
    have slot := Bool.toNat_le (a.usage.gate.hasSlot j b.runReserved)
    exact hb.mono rfl id (by omega)
  | leave hl =>
    have taken := B.taken_leave hj hm decide_eq_true_iff hl
    exact hb.mono terms (Account.held_of_leave hl) (by simpa using taken.ge)
  | @free _ a₁ _ _ hl hr =>
    have left := C.leave B hj hm decide_eq_true_iff hl
    obtain ⟨stuck, rfl⟩ := Account.releaseNext_none hr
    rcases stuck with hnil | ⟨cap, hcap, full⟩
    · exact ⟨terms ▸ hb.floor, fun h => absurd hnil h⟩
    · exact hb.of_full terms (terms ▸ hcap) (left.occupied ▸ full)
  | release hl hr =>
    -- the slot that became free goes to the job that is released
    have taken := B.taken_leave hj hm decide_eq_true_iff hl
    have taken' := (B.leave hl).taken_releaseNext (S := S) hr
    obtain ⟨rest, hh, -, -⟩ := Account.releaseNext_some hr
    have held := Account.held_of_leave hl (by simp [hh])
    refine hb.mono terms (fun _ => held) ?_
    rw [Bool.toNat_true] at taken
    omega
  | keep h => cases h

/-! ### Whatever happens -/

namespace Scene

variable {s s' : Scene} {granted : List Terms}

/-- The account is there, and within its cap. -/
def Capped (s : Scene) (c : UInt32) : Prop :=
  ∃ a, s.account = some a ∧ a.Capped c s.arrived s.member

/-- If the account is there, it is busy. -/
def Busy (s : Scene) (n : ℕ) : Prop := ∀ a, s.account = some a → a.Busy n s.arrived s.member

/-- If the account is there, the counters of its slots are exact. -/
def SlotsCounted (s : Scene) : Prop :=
  ∀ a, s.account = some a → a.usage.SlotsCounted s.arrived s.member

theorem Counted.slotsCounted (h : s.Counted) : s.SlotsCounted := fun a ha =>
  (h a ha).toSlotsCounted

theorem Capped.slotsCounted (h : s.Capped c) : s.SlotsCounted := by
  obtain ⟨a, ha, C⟩ := h
  intro a' ha'
  obtain rfl : a = a' := Option.some.inj (ha.symm.trans ha')
  exact C.counted

/-- The last terms are among those that are told. -/
theorem exists_cap_of_told {X : Type} {f : Terms → X} {g : UInt32 → X} {terms : Terms}
    {caps : List UInt32} (hcaps : granted.map f = caps.map g)
    (hlast : granted.getLast? = some terms) : ∃ c ∈ caps, f terms = g c := by
  have hmem : f terms ∈ granted.map f := List.mem_map_of_mem (List.mem_of_getLast? hlast)
  rw [hcaps] at hmem
  obtain ⟨c, hc, hcap⟩ := List.mem_map.mp hmem
  exact ⟨c, hc, hcap.symm⟩

/-- An account within its cap that is told other caps, none of them below it, is within one
of them. -/
theorem Step.capped (h : Scene.Step k refusing granted rs s s') (hs : s.Sound k)
    {caps : List UInt32} (hcaps : granted.map (·.runLimit) = caps.map .capped)
    (hle : ∀ c' ∈ caps, c ≤ c') (C : s.Capped c) : ∃ c' ∈ c :: caps, s'.Capped c' := by
  obtain ⟨a, ha, C⟩ := C
  cases h with
  | @told _ _ terms hlast =>
    obtain ⟨c', hc', hcap⟩ := exists_cap_of_told hcaps hlast
    have within : a.usage.taken s.arrived s.member ≤ c'.toNat :=
      C.within.trans (UInt32.le_iff_toNat_le.mp (hle c' hc'))
    refine ⟨c', List.mem_cons_of_mem _ hc', _, rfl, ?_⟩
    rw [ha]
    exact ⟨rfl, hcap, C.counted, within, C.placed⟩
  | @quiet _ S hS =>
    have within : a.usage.taken S s.member ≤ c.toNat := by
      rw [Usage.taken_mono hS hs.known]
      exact C.within
    exact ⟨c, List.mem_cons_self, a, ha, C.real, C.cap, C.counted.mono hS hs.known, within,
      C.placed⟩
  | found _ hnone | foundFor _ _ hnone => simp [hnone] at ha
  | @move _ S j rs a₁ a' m' hS hj ha' h =>
    obtain rfl : a₁ = a := by simpa [ha'] using ha
    have within : a₁.usage.taken S s.member ≤ c.toNat := by
      rw [Usage.taken_mono hS hs.known]
      exact C.within
    have C : a₁.Capped c S s.member :=
      ⟨C.real, C.cap, C.counted.mono hS hs.known, within, C.placed⟩
    exact ⟨c, List.mem_cons_self, a', rfl, h.capped rfl (hs.books a₁ ha) hj C⟩

/-- An account that records create is within one of the caps that they grant. -/
theorem Step.created (h : Scene.Step k refusing granted rs s s') (hs : s.Sound k)
    {caps : List UInt32} (hcaps : granted.map (·.runLimit) = caps.map .capped)
    (hnone : s.account = none) (hne : granted ≠ []) : ∃ c' ∈ caps, s'.Capped c' := by
  cases h with
  | @told _ _ terms hlast =>
    obtain ⟨c', hc', hcap⟩ := exists_cap_of_told hcaps hlast
    have empty := hs.member_of_none hnone
    have counted : Usage.SlotsCounted {} s.arrived s.member := (Usage.Counted.initial empty).1
    refine ⟨c', hc', _, rfl, ?_⟩
    rw [hnone]
    refine ⟨rfl, hcap, counted, ?_, ?_⟩
    · exact counted.occupied.ge.trans (Nat.zero_le _)
    · intro i n hi
      simp [empty] at hi
  | quiet | found | foundFor | move => exact absurd rfl hne

/-- An account stays busy whatever happens, if no cap that it is told is too small, the counters
of its slots are exact and the scheduler does not refuse to release a job. -/
theorem Step.busy (h : Scene.Step k false granted rs s s') (hs : s.Sound k)
    (floor : ∀ t ∈ granted, ∀ cap, t.runLimit.cap = some cap → n ≤ cap)
    (C : s.SlotsCounted) (hb : s.Busy n) : s'.Busy n := by
  cases h with
  | @told _ _ terms hlast =>
    rintro _ ⟨⟩
    have floor := floor terms (List.mem_of_getLast? hlast)
    cases ha : s.account with
    | none => exact ⟨floor, fun h => absurd rfl h⟩
    | some a => exact ⟨floor, (hb a ha).busy⟩
  | quiet hS =>
    intro a ha
    exact ⟨(hb a ha).floor, Usage.taken_mono hS hs.known ▸ (hb a ha).busy⟩
  | found | foundFor =>
    rintro _ ⟨⟩
    exact ⟨fun _ h => (nomatch h), fun h => absurd rfl h⟩
  | @move _ S j rs a a' m' hS hj ha h =>
    rintro _ ⟨⟩
    have busy : a.Busy n S s.member :=
      ⟨(hb a ha).floor, Usage.taken_mono hS hs.known ▸ (hb a ha).busy⟩
    exact h.busy rfl (hs.books a ha) hj (fun hp n hn => hs.plain a ha hp j n hn)
      ((C a ha).mono hS hs.known) busy

end Scene

end JobAdmission

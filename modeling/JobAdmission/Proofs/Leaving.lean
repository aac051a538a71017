import JobAdmission.Proofs.Counters
import JobAdmission.Proofs.LateBinding

/-!
# The order of leaving

This module proves that two jobs of one account can leave in either order
(`World.Reached.leaving_comm`): where the scheduler refuses no release, the same accounts and the
same jobs are left, in a run that the account's counters can follow. The jobs may be anywhere on
their way. A job that leaves can free a slot, and then the next held job is released, which may be
the other job. In one order the other job is released and gives its slot to the next one then; in
the other order it leaves the queue before anything is released
(`Account.left_releaseOne_of_head`). In all other cases a release and a leaving commute
(`Account.left_releaseOne`).
-/

namespace JobAdmission

/-! ### Leaving in two parts -/

/-- The gate with a held job released, and only `rest` left in the queue. -/
def Gate.release (g : Gate) (n : JobId) (rest : List JobId) : Gate where
  held := rest
  released := g.released.insert n
  reserved := g.reserved.up

namespace Account

/-- A slot becomes free when the job leaves: one that was reserved for it, or one that it ran on. -/
def frees (a : Account) (j : JobId) (b : JobBinding) (ran : Bool) : Bool :=
  a.usage.gate.hasSlot j b.runReserved || ran

/-- The account without a job that left. -/
def left (a : Account) (j : JobId) (b : JobBinding) (ran : Bool) : Account := (a.leave j b ran).2

/-- The account with its next held job released, if there is one and a slot for it. -/
def releaseOne (a : Account) : Account := a.releaseNext.2

/-- The account after a job left and, where a slot became free, a held job was released. -/
def departed (a : Account) (j : JobId) (b : JobBinding) (ran : Bool) : Account :=
  if a.frees j b ran then (a.left j b ran).releaseOne else a.left j b ran

/-- No slot is left. -/
def full (a : Account) : Bool := a.usage.gate.isFull a.usage.running a.terms.runLimit.cap

variable {a a₁ a₂ : Account} {i j n : JobId} {b bi bj : JobBinding} {ran ri rj : Bool}
  {rest : List JobId}

theorem leave_eq_left : a.leave j b ran = (a.frees j b ran, a.left j b ran) := rfl

/-- Two states of one account are the same if they agree on what its jobs take up. -/
theorem UsedAs.eq_of_usage (h₁ : a.UsedAs a₁) (h₂ : a.UsedAs a₂)
    (running : a₁.usage.running = a₂.usage.running) (active : a₁.usage.active = a₂.usage.active)
    (held : a₁.usage.gate.held = a₂.usage.gate.held)
    (released : a₁.usage.gate.released = a₂.usage.gate.released)
    (reserved : a₁.usage.gate.reserved = a₂.usage.gate.reserved)
    (queueFactor : a₁.usage.queueFactor = a₂.usage.queueFactor) : a₁ = a₂ := by
  obtain ⟨⟨r₁, c₁, ⟨h₁, l₁, v₁⟩, q₁⟩, rfl⟩ := h₁
  obtain ⟨⟨r₂, c₂, ⟨h₂, l₂, v₂⟩, q₂⟩, rfl⟩ := h₂
  simp only at running active held released reserved queueFactor
  rw [running, active, held, released, reserved, queueFactor]

theorem usedAs_left : a.UsedAs (a.left j b ran) := usedAs_leave leave_eq_left

theorem usedAs_releaseOne : a.UsedAs a.releaseOne := usedAs_releaseNext (Prod.eta _).symm

theorem usedAs_departed : a.UsedAs (a.departed j b ran) := by
  unfold departed
  split
  · exact usedAs_left.trans usedAs_releaseOne
  · exact usedAs_left

@[simp] theorem departed_handle : (a.departed j b ran).handle = a.handle := by
  obtain ⟨usage, same⟩ : a.UsedAs (a.departed j b ran) := usedAs_departed
  rw [same]
  rfl

@[simp] theorem left_terms : (a.left j b ran).terms = a.terms := rfl

@[simp] theorem left_held :
    (a.left j b ran).usage.gate.held = a.usage.gate.held.filter (fun i => decide (i ≠ j)) := rfl

@[simp] theorem left_released :
    (a.left j b ran).usage.gate.released = a.usage.gate.released.erase j := rfl

theorem left_reserved : (a.left j b ran).usage.gate.reserved =
    if a.usage.gate.hasSlot j b.runReserved then a.usage.gate.reserved.down
    else a.usage.gate.reserved := rfl

theorem left_running : (a.left j b ran).usage.running =
    if ran && b.countedRunning then a.usage.running.down else a.usage.running := rfl

theorem left_active : (a.left j b ran).usage.active =
    if b.countedActive then a.usage.active.down else a.usage.active := rfl

theorem releaseNext_of_full (h : a.full = true) : a.releaseNext = (none, a) := by
  rw [full] at h
  simp [releaseNext, Gate.releaseNext, h, withGate]

theorem releaseNext_of_nil (h : a.usage.gate.held = []) : a.releaseNext = (none, a) := by
  simp [releaseNext, Gate.releaseNext, h, withGate]

theorem releaseNext_of_cons (h : a.full = false) (hh : a.usage.gate.held = n :: rest) :
    a.releaseNext = (some n, a.withGate (a.usage.gate.release n rest)) := by
  rw [full] at h
  simp [releaseNext, Gate.releaseNext, h, hh, Gate.release]

theorem releaseOne_of_full (h : a.full = true) : a.releaseOne = a :=
  congrArg Prod.snd (releaseNext_of_full h)

theorem releaseOne_of_nil (h : a.usage.gate.held = []) : a.releaseOne = a :=
  congrArg Prod.snd (releaseNext_of_nil h)

theorem releaseOne_of_cons (h : a.full = false) (hh : a.usage.gate.held = n :: rest) :
    a.releaseOne = a.withGate (a.usage.gate.release n rest) :=
  congrArg Prod.snd (releaseNext_of_cons h hh)

/-- Accounts with one limit are both full if as many slots are in use. -/
theorem full_congr (terms : a₂.terms = a₁.terms)
    (occupied : a₂.usage.occupied = a₁.usage.occupied) : a₂.full = a₁.full := by
  rw [Bool.eq_iff_iff, full, full, isFull_iff, isFull_iff, terms, occupied]

/-- An account that is not full is not so with fewer slots in use. -/
theorem not_full_of_le (terms : a₂.terms = a₁.terms)
    (occupied : a₂.usage.occupied ≤ a₁.usage.occupied) (h : a₁.full = false) :
    a₂.full = false := by
  rw [full, isFull_eq_false_iff] at h ⊢
  exact fun c hc => occupied.trans_lt (h c (terms ▸ hc))

/-! ### Parts that commute -/

theorem hasSlot_release {g : Gate} (hnj : n ≠ j) (r : Bool) :
    (g.release n rest).hasSlot j r = g.hasSlot j r := by
  have slot : (g.released.insert n).contains j = g.released.contains j := by
    rw [Bool.eq_iff_iff, Std.ExtTreeSet.contains_iff_mem, Std.ExtTreeSet.contains_iff_mem,
      Gate.mem_insert, or_iff_right hnj.symm]
  rw [Gate.hasSlot, Gate.hasSlot, ← slot]
  rfl

theorem contains_erase_of_ne {jobs : Std.ExtTreeSet JobId} (hij : i ≠ j) :
    (jobs.erase i).contains j = jobs.contains j := by
  rw [Bool.eq_iff_iff, Std.ExtTreeSet.contains_iff_mem, Std.ExtTreeSet.contains_iff_mem,
    Gate.mem_erase, and_iff_right hij.symm]

/-- Another job that leaves does not touch the slot of a job. -/
theorem hasSlot_left (hij : i ≠ j) (r : Bool) :
    (a.left i b ran).usage.gate.hasSlot j r = a.usage.gate.hasSlot j r := by
  rw [Gate.hasSlot, Gate.hasSlot, left_released, contains_erase_of_ne hij]

theorem frees_left (hij : i ≠ j) : (a.left i bi ri).frees j b ran = a.frees j b ran := by
  rw [frees, frees, hasSlot_left hij]

/-- Two jobs that leave, with nothing released, leave the same account in either order. -/
theorem left_comm (hij : i ≠ j) :
    (a.left i bi ri).left j bj rj = (a.left j bj rj).left i bi ri := by
  have counter : ∀ (c d : Bool) (n : Counter), (if c then (if d then n.down else n).down else
      if d then n.down else n) = if d then (if c then n.down else n).down else
      if c then n.down else n := by
    intro c d n
    cases c <;> cases d <;> rfl
  apply UsedAs.eq_of_usage (usedAs_left.trans usedAs_left) (usedAs_left.trans usedAs_left)
  case running => exact counter _ _ _
  case active => exact counter _ _ _
  case held =>
    rw [left_held, left_held, left_held, left_held]
    apply List.filter_comm
  case released =>
    apply Std.ExtTreeSet.ext_mem
    intro n
    simp only [left_released, Gate.mem_erase, and_left_comm]
  case reserved =>
    rw [left_reserved, left_reserved, left_reserved, left_reserved, hasSlot_left hij,
      hasSlot_left hij.symm]
    exact counter _ _ _
  case queueFactor => rfl

/-- A release and the leaving of a job commute, if the job is not the one that is released, its
leaving does not matter to whether there is a slot, and the counter of the reserved slots neither
goes round nor stops at zero. -/
theorem left_releaseOne (hfull : (a.left j b ran).full = a.full)
    (hhead : ∀ rest, a.usage.gate.held ≠ j :: rest)
    (hpos : a.usage.gate.hasSlot j b.runReserved = true → 0 < a.usage.gate.reserved.toNat)
    (hup : a.usage.gate.held ≠ [] → a.usage.gate.reserved.toNat + 1 < UInt32.size) :
    a.releaseOne.left j b ran = (a.left j b ran).releaseOne := by
  cases h : a.full with
  | true => rw [releaseOne_of_full h, releaseOne_of_full (hfull.trans h)]
  | false =>
    cases hh : a.usage.gate.held with
    | nil =>
      have empty : (a.left j b ran).usage.gate.held = [] := by simp [hh]
      rw [releaseOne_of_nil hh, releaseOne_of_nil empty]
    | cons n rest =>
      have hnj : n ≠ j := by
        rintro rfl
        exact hhead rest hh
      have later :
          (a.left j b ran).usage.gate.held = n :: rest.filter (fun i => decide (i ≠ j)) := by
        simp [hh, hnj]
      rw [releaseOne_of_cons h hh, releaseOne_of_cons (hfull.trans h) later]
      apply UsedAs.eq_of_usage ((usedAs_withGate a _).trans usedAs_left)
        (usedAs_left.trans (usedAs_withGate _ _))
      case running => rfl
      case active => rfl
      case held => rfl
      case queueFactor => rfl
      case released =>
        apply Std.ExtTreeSet.ext_mem
        intro m
        simp only [left_released, withGate, Gate.release, Gate.mem_erase, Gate.mem_insert]
        constructor
        · rintro ⟨hmj, rfl | hm⟩
          · exact .inl rfl
          · exact .inr ⟨hmj, hm⟩
        · rintro (rfl | ⟨hmj, hm⟩)
          · exact ⟨hnj, .inl rfl⟩
          · exact ⟨hmj, .inr hm⟩
      case reserved =>
        show (if (a.usage.gate.release n rest).hasSlot j b.runReserved then
            a.usage.gate.reserved.up.down else a.usage.gate.reserved.up) =
          (if a.usage.gate.hasSlot j b.runReserved then a.usage.gate.reserved.down
            else a.usage.gate.reserved).up
        rw [hasSlot_release hnj]
        by_cases hslot : a.usage.gate.hasSlot j b.runReserved = true
        · rw [if_pos hslot, if_pos hslot, Counter.down_up (hup (hh ▸ List.cons_ne_nil n rest)),
            Counter.up_down (hpos hslot)]
        · rw [if_neg hslot, if_neg hslot]

/-- A job that is released and leaves then leaves what it leaves as a held job. -/
theorem left_releaseOne_of_head (h : a.full = false) (hh : a.usage.gate.held = j :: rest)
    (fresh : j ∉ a.usage.gate.released) (slotless : b.runReserved = false)
    (hup : a.usage.gate.reserved.toNat + 1 < UInt32.size) :
    a.releaseOne.left j b ran = a.left j b ran := by
  rw [releaseOne_of_cons h hh]
  apply UsedAs.eq_of_usage ((usedAs_withGate a _).trans usedAs_left) usedAs_left
  case running => rfl
  case active => rfl
  case queueFactor => rfl
  case held => simp [withGate, Gate.release, hh]
  case released =>
    apply Std.ExtTreeSet.ext_mem
    intro m
    simp only [left_released, withGate, Gate.release, Gate.mem_erase, Gate.mem_insert]
    constructor
    · rintro ⟨hmj, rfl | hm⟩
      · exact absurd rfl hmj
      · exact ⟨hmj, hm⟩
    · rintro ⟨hmj, hm⟩
      exact ⟨hmj, .inr hm⟩
  case reserved =>
    simp [left_reserved, withGate, Gate.release, Gate.hasSlot, slotless,
      Gate.contains_eq_false fresh, Counter.down_up hup]

/-- A release does not touch the slot of a job that is not released. -/
theorem frees_releaseOne (hhead : ∀ rest, a.usage.gate.held ≠ j :: rest) :
    a.releaseOne.frees j b ran = a.frees j b ran := by
  cases h : a.full with
  | true => rw [releaseOne_of_full h]
  | false =>
    cases hh : a.usage.gate.held with
    | nil => rw [releaseOne_of_nil hh]
    | cons n rest =>
      have hnj : n ≠ j := by
        rintro rfl
        exact hhead rest hh
      rw [releaseOne_of_cons h hh]
      show ((a.usage.gate.release n rest).hasSlot j b.runReserved || ran) = _
      rw [hasSlot_release hnj]
      rfl

/-! ### Jobs that the books list -/

section Books

variable {S : Finset JobId} {f : JobId → Option Member} {m mi mj : Member}

/-- The books of the account are right, and the counters of its slots can tell the number of its
jobs. -/
structure Light (a : Account) (S : Finset JobId) (f : JobId → Option Member) : Prop where
  books : a.usage.Books f
  counted : a.usage.SlotsCounted S f
  known : ∀ i m, f i = some m → i ∈ S
  few : headcount S f < UInt32.size

namespace Light

/-- A job leaves. -/
theorem left (L : a.Light S f) (hm : f j = some m) (hr : ran = true ↔ m.phase = .running) :
    (a.left j m.binding ran).Light S (Function.update f j none) where
  books := L.books.leave leave_eq_left
  counted := L.counted.leave L.books (L.known j m hm) hm hr leave_eq_left
  known := mem_of_update L.known (L.known j m hm)
  few := by
    have fewer := tally_update f (fun _ => true) (L.known j m hm) none
    have few := L.few
    rw [Member.flag_none] at fewer
    unfold headcount at few ⊢
    omega

/-- A job that leaves frees the slot that it has, or none. -/
theorem occupied_left (L : a.Light S f) (hm : f j = some m)
    (hr : ran = true ↔ m.phase = .running) :
    (a.left j m.binding ran).usage.occupied + (a.frees j m.binding ran).toNat =
      a.usage.occupied := by
  rw [(L.left hm hr).counted.occupied, L.counted.occupied]
  exact L.books.taken_leave (L.known j m hm) hm hr leave_eq_left

/-- The slot of a job is counted. -/
theorem reserved_pos (L : a.Light S f) (hm : f j = some m)
    (h : a.usage.gate.hasSlot j m.binding.runReserved = true) :
    0 < a.usage.gate.reserved.toNat := by
  rw [L.counted.balanced]
  exact L.books.coherent.reservations_pos (L.known j m hm) hm h

/-- Where a job is held, one slot more can be counted. -/
theorem reserved_up (L : a.Light S f) (h : a.usage.gate.held ≠ []) :
    a.usage.gate.reserved.toNat + 1 < UInt32.size := by
  have le := L.books.coherent.reservations_add_held_le L.known
  have few := L.few
  have pos := List.length_pos_iff.mpr h
  rw [L.counted.balanced]
  omega

end Light

/-- A job that frees a slot is not held. -/
theorem not_held_of_frees (B : a.usage.Books f) (hm : f j = some m)
    (hr : ran = true ↔ m.phase = .running) (h : a.frees j m.binding ran = true) :
    j ∉ a.usage.gate.held := by
  intro hj
  have fits := B.fits j m hm
  obtain ⟨⟨reserved, running⟩, fresh⟩ := fits.held hj
  have idle : ran ≠ true := by
    rw [ne_eq, hr, ← fits.counted, running]
    exact Bool.false_ne_true
  simp [frees, Gate.hasSlot, reserved, Gate.contains_eq_false fresh, idle] at h

/-- A job that frees no slot leaves the account as full as it was. -/
theorem full_left_of_idle (L : a.Light S f) (hm : f j = some m)
    (hr : ran = true ↔ m.phase = .running) (h : a.frees j m.binding ran = false) :
    (a.left j m.binding ran).full = a.full := by
  have occupied := L.occupied_left hm hr
  rw [h] at occupied
  exact full_congr left_terms occupied

/-- A release before a job leaves that frees no slot is a release after it. If the job itself is
released, it passes its slot on as it leaves. -/
theorem departed_releaseOne_of_idle (L : a.Light S f) (hm : f j = some m)
    (hr : ran = true ↔ m.phase = .running) (h : a.frees j m.binding ran = false) :
    a.releaseOne.departed j m.binding ran = (a.left j m.binding ran).releaseOne := by
  have hfull := full_left_of_idle L hm hr h
  by_cases hhead : ∃ rest, a.usage.gate.held = j :: rest
  · obtain ⟨rest, hh⟩ := hhead
    cases ha : a.full with
    | true =>
      rw [releaseOne_of_full ha, departed, h, releaseOne_of_full (hfull.trans ha)]
      rfl
    | false =>
      have place := (L.books.fits j m hm).held (by simp [hh])
      have freed : a.releaseOne.frees j m.binding ran = true := by
        have mem : j ∈ a.releaseOne.usage.gate.released := by
          rw [releaseOne_of_cons ha hh]
          exact Gate.mem_insert.mpr (.inl rfl)
        simp [frees, Gate.hasSlot, Std.ExtTreeSet.mem_iff_contains.mp mem]
      rw [departed, if_pos freed, left_releaseOne_of_head ha hh place.2 place.1.1
        (L.reserved_up (hh ▸ List.cons_ne_nil j rest))]
  · have hhead : ∀ rest, a.usage.gate.held ≠ j :: rest := by simpa using hhead
    have idle : a.releaseOne.frees j m.binding ran = false := (frees_releaseOne hhead).trans h
    rw [departed, idle]
    exact left_releaseOne hfull hhead (L.reserved_pos hm) L.reserved_up

/-- A release before a job leaves that frees a slot. Where no slot was left before, only the
slot of the job is given to a held job. -/
theorem departed_releaseOne_of_occupant (L : a.Light S f) (hm : f j = some m)
    (hr : ran = true ↔ m.phase = .running) (h : a.frees j m.binding ran = true) :
    a.releaseOne.departed j m.binding ran =
      if a.full then (a.left j m.binding ran).releaseOne
      else (a.left j m.binding ran).releaseOne.releaseOne := by
  have hhead : ∀ rest, a.usage.gate.held ≠ j :: rest := by
    intro rest hh
    exact not_held_of_frees L.books hm hr h (by simp [hh])
  rw [departed, if_pos ((frees_releaseOne hhead).trans h)]
  cases ha : a.full with
  | true =>
    rw [releaseOne_of_full ha]
    rfl
  | false =>
    have occupied := L.occupied_left hm hr
    have later := not_full_of_le left_terms (Nat.le.intro occupied) ha
    rw [left_releaseOne (later.trans ha.symm) hhead (L.reserved_pos hm) L.reserved_up]
    rfl

/-- Two jobs of an account can leave in either order. -/
theorem departed_comm (L : a.Light S f) (hij : i ≠ j) (hmi : f i = some mi)
    (hmj : f j = some mj) (hri : ri = true ↔ mi.phase = .running)
    (hrj : rj = true ↔ mj.phase = .running) :
    (a.departed i mi.binding ri).departed j mj.binding rj =
      (a.departed j mj.binding rj).departed i mi.binding ri := by
  have Li := L.left hmi hri
  have Lj := L.left hmj hrj
  have hmj' : Function.update f i none j = some mj := by
    rw [Function.update_of_ne hij.symm, hmj]
  have hmi' : Function.update f j none i = some mi := by
    rw [Function.update_of_ne hij, hmi]
  have later_i : (a.left j mj.binding rj).frees i mi.binding ri = a.frees i mi.binding ri :=
    frees_left hij.symm
  have later_j : (a.left i mi.binding ri).frees j mj.binding rj = a.frees j mj.binding rj :=
    frees_left hij
  have both : (a.left i mi.binding ri).left j mj.binding rj =
      (a.left j mj.binding rj).left i mi.binding ri := left_comm hij
  cases fi : a.frees i mi.binding ri with
  | false =>
    rw [fi] at later_i
    rw [departed.eq_def a i, fi, if_neg Bool.false_ne_true]
    cases fj : a.frees j mj.binding rj with
    | false =>
      rw [fj] at later_j
      rw [departed.eq_def a j, fj, if_neg Bool.false_ne_true, departed, later_j, departed, later_i]
      exact both
    | true =>
      rw [fj] at later_j
      rw [departed.eq_def a j, fj, if_pos rfl, departed, later_j, if_pos rfl, both,
        departed_releaseOne_of_idle Lj hmi' hri later_i]
  | true =>
    rw [fi] at later_i
    rw [departed.eq_def a i, fi, if_pos rfl]
    cases fj : a.frees j mj.binding rj with
    | false =>
      rw [fj] at later_j
      rw [departed.eq_def a j, fj, if_neg Bool.false_ne_true, departed.eq_def _ i, later_i,
        if_pos rfl, ← both, departed_releaseOne_of_idle Li hmj' hrj later_j]
    | true =>
      rw [fj] at later_j
      -- either way as many slots are left when the first one has left
      have slots : (a.left i mi.binding ri).full = (a.left j mj.binding rj).full := by
        have oi := L.occupied_left hmi hri
        have oj := L.occupied_left hmj hrj
        rw [fi] at oi
        rw [fj] at oj
        exact full_congr rfl (Nat.add_right_cancel (oi.trans oj.symm))
      rw [departed.eq_def a j, fj, if_pos rfl,
        departed_releaseOne_of_occupant Li hmj' hrj later_j,
        departed_releaseOne_of_occupant Lj hmi' hri later_i, slots, both]

end Books

end Account

/-! ### Leaving in a run -/

namespace World

variable {H : Type} [Scheduler H] {w : World H} {k : AccountKey} {job i j : Job}
  {args argsi argsj : Json} {l : LiveJob} {b : JobBinding} {a : Account}

omit [Scheduler H] in
theorem binding_of_accountOf {j : JobId} (hl : w.live j = some l) (hk : w.accountOf j = some k) :
    ∃ b, l.storage.binding = some b ∧ b.account.key = k := by
  rw [accountOf, storage_of_live hl] at hk
  exact Option.map_eq_some_iff.mp hk

/-- The scheduler refuses no release in the event. -/
def Releases (w : World H) (ev : Event H) : Prop := w.refuses ev = false

instance (w : World H) : DecidablePred w.Releases := fun ev =>
  inferInstanceAs (Decidable (w.refuses ev = false))

/-- A job that leaves changes its account only. -/
theorem ledger_of_leaving (hl : w.live job.id = some l)
    (hb : w.engine.boundAccount l.storage = some (b, a))
    (hr : w.Releases (.call .inactive args job)) :
    (w.after (.call .inactive args job)).engine.ledger =
      w.engine.ledger.put (a.departed job.id b job.allocObserved) := by
  have release : ∀ err, (w.engine.inactive job l.storage).outcome ≠
      .error (.fault (.dependencyRemove err)) := by
    intro err herr
    have answer := Step.outcome_map_eq_error (f := fun _ => Reply.accepted).mpr herr
    simp [Releases, refuses, World.step, storage_of_live hl, Engine.stepOf, answer] at hr
  rw [after_call_ledger hl]
  show (w.engine.inactive job l.storage).engine.ledger = _
  obtain ⟨rs, effect⟩ := w.engine.inactive_effect job l.storage
  generalize (w.engine.inactive job l.storage).engine.ledger = ledger at effect ⊢
  generalize (w.engine.inactive job l.storage).outcome = outcome at effect release
  generalize (w.engine.inactive job l.storage).engine.host = host at effect
  generalize (w.engine.inactive job l.storage).storage = s at effect
  cases effect with
  | unbound hb' => simp [hb'] at hb
  | left hb' hleave =>
    cases hb.symm.trans hb'
    rw [Account.leave_eq_left] at hleave
    obtain ⟨idle, rfl⟩ := Prod.mk.inj hleave
    rw [Account.departed, idle]
    rfl
  | freed hb' hleave hnone =>
    cases hb.symm.trans hb'
    rw [Account.leave_eq_left] at hleave
    obtain ⟨freed, rfl⟩ := Prod.mk.inj hleave
    rw [Account.departed, freed, if_pos rfl, Account.releaseOne, hnone]
  | released hb' hleave hsome =>
    cases hb.symm.trans hb'
    rw [Account.leave_eq_left] at hleave
    obtain ⟨freed, rfl⟩ := Prod.mk.inj hleave
    rw [Account.departed, freed, if_pos rfl, Account.releaseOne, hsome]
  | kept => exact absurd rfl (release _)

/-- A job keeps its place while another one leaves. -/
theorem live_after_leaving (hij : i.id ≠ j.id) :
    (w.after (.call .inactive args i)).live j.id = w.live j.id := by
  apply live_after_of_ne
  simpa [Event.job?] using hij

/-- What is due to a job that leaves does not depend on other jobs. -/
theorem hostOrder_after_leaving (hij : i.id ≠ j.id) (h : w.HostOrder (.call .inactive args j)) :
    (w.after (.call .inactive argsi i)).HostOrder (.call .inactive args j) := by
  obtain ⟨l, hl, due⟩ := h
  refine ⟨l, (live_after_leaving hij).trans hl, due.userid, due.bank, due.phase, ?_, due.alloc⟩
  intro run
  cases run

/-- Two jobs of an account leave one after the other. -/
theorem ledger_of_leavings (hij : i.id ≠ j.id) {li lj : LiveJob}
    {bi bj : JobBinding} (hi : w.live i.id = some li) (hj : w.live j.id = some lj)
    (hbi : w.engine.boundAccount li.storage = some (bi, a))
    (hbj : w.engine.boundAccount lj.storage = some (bj, a))
    (hr : w.Obeys Releases [.call .inactive argsi i, .call .inactive argsj j]) :
    (w.afterAll [.call .inactive argsi i, .call .inactive argsj j]).engine.ledger =
      w.engine.ledger.put
        ((a.departed i.id bi i.allocObserved).departed j.id bj j.allocObserved) := by
  obtain ⟨hbj', ha⟩ := Engine.boundAccount_eq_some.mp hbj
  have first := ledger_of_leaving hi hbi hr.1
  have there : (w.after (.call .inactive argsi i)).engine.boundAccount lj.storage =
      some (bj, a.departed i.id bi i.allocObserved) := by
    refine Engine.boundAccount_eq_some.mpr ⟨hbj', ?_⟩
    rw [first, Ledger.getElem?_objects_put_of_mem ha Account.departed_handle, if_pos rfl]
  have second := ledger_of_leaving ((live_after_leaving hij).trans hj) there hr.2.1
  rw [first, Ledger.put_put _ Account.departed_handle] at second
  exact second

/-- The account of the jobs as `Account.Light` sees it, in a run that its counters can follow. -/
theorem Reached.light (h : w.Reached (LightOrder k HostOrder)) {a : Account}
    (ha : w.account k = some a) : a.Light w.arrived (w.scene k).member := by
  obtain ⟨hs, C⟩ := h.counted fun _ _ order => order
  have scene := hs.scenes k
  exact ⟨scene.books a ha, (C a ha).toSlotsCounted, scene.known,
    (hs.load_eq k).symm.trans_lt h.load_lt⟩

/-- Two jobs that are bound to one account can leave in either order, wherever they are on their
way, if the scheduler refuses no release then and the run is one that the counters of the account
can follow. Either order is the host's, and the same accounts and the same jobs are left. -/
theorem Reached.leaving_comm (h : w.Reached (LightOrder k HostOrder)) (hij : i.id ≠ j.id)
    (hik : w.accountOf i.id = some k) (hjk : w.accountOf j.id = some k)
    (hi : w.HostOrder (.call .inactive argsi i)) (hj : w.HostOrder (.call .inactive argsj j))
    (released : w.Obeys Releases [.call .inactive argsi i, .call .inactive argsj j])
    (released' : w.Obeys Releases [.call .inactive argsj j, .call .inactive argsi i]) :
    let one := w.afterAll [.call .inactive argsi i, .call .inactive argsj j]
    let other := w.afterAll [.call .inactive argsj j, .call .inactive argsi i]
    w.Obeys HostOrder [.call .inactive argsi i, .call .inactive argsj j] ∧
      w.Obeys HostOrder [.call .inactive argsj j, .call .inactive argsi i] ∧
      one.engine.ledger = other.engine.ledger ∧ one.live = other.live := by
  have hs := (h.mono LightOrder.order).sound
  have later : w.Obeys HostOrder [.call .inactive argsi i, .call .inactive argsj j] :=
    ⟨hi, hostOrder_after_leaving hij hj, trivial⟩
  have later' : w.Obeys HostOrder [.call .inactive argsj j, .call .inactive argsi i] :=
    ⟨hj, hostOrder_after_leaving hij.symm hi, trivial⟩
  obtain ⟨li, hli, duei⟩ := hi
  obtain ⟨lj, hlj, duej⟩ := hj
  obtain ⟨bi, hbi, rfl⟩ := binding_of_accountOf hli hik
  obtain ⟨bj, hbj, same⟩ := binding_of_accountOf hlj hjk
  have mi := scene_member_of_binding hli hbi
  have mj := scene_member_of_binding hlj hbj
  rw [same] at mj
  obtain ⟨a, ha, -⟩ := (hs.scenes bi.account.key).housed i.id _ mi
  have foundi := hs.boundAccount hli hbi ha
  have foundj := hs.boundAccount hlj hbj (same ▸ ha)
  refine ⟨later, later', ?_, ?_⟩
  · rw [ledger_of_leavings hij hli hlj foundi foundj released,
      ledger_of_leavings hij.symm hlj hli foundj foundi released',
      Account.departed_comm (h.light ha) hij mi mj (duei.alloc rfl) (duej.alloc rfl)]
  · show ((w.after (.call .inactive argsi i)).after (.call .inactive argsj j)).live =
      ((w.after (.call .inactive argsj j)).after (.call .inactive argsi i)).live
    rw [after_inactive_live, after_inactive_live, after_inactive_live, after_inactive_live]
    apply Function.update_comm
    exact hij

namespace Sample

/-- Two more jobs come to the account with one running slot, and are held. -/
def crowd : List (Event Host) :=
  events ++ [.call .new .null (Sample.job 9), .call .depend .null (Sample.job 9)]

end Sample

/-- One job runs, and two jobs are held behind it. The first of these takes the slot and leaves,
or leaves before there is a slot. -/
theorem sample_leaving_comm :
    let w := Sample.start.afterAll Sample.crowd
    let runs := { Sample.job 7 with allocObserved := true }
    let held := Sample.job 8
    (w.afterAll [.call .inactive .null runs, .call .inactive .null held]).engine.ledger =
      (w.afterAll [.call .inactive .null held, .call .inactive .null runs]).engine.ledger := by
  have reached : (Sample.start.afterAll Sample.crowd).Reached
      (LightOrder Sample.key HostOrder) :=
    ⟨Config.default, {}, none, Sample.crowd, by decide +kernel, rfl⟩
  have order : (Sample.start.afterAll Sample.crowd).HostOrder
      (.call .inactive .null { Sample.job 7 with allocObserved := true }) := by
    decide +kernel
  have order' : (Sample.start.afterAll Sample.crowd).HostOrder
      (.call .inactive .null (Sample.job 8)) := by
    decide +kernel
  exact (reached.leaving_comm (by decide) (by decide +kernel)
    (by decide +kernel) order order' (by decide +kernel) (by decide +kernel)).2.2.1

end World

end JobAdmission

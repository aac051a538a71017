import JobAdmission.Proofs.Counts
import JobAdmission.Proofs.Scene

/-!
# Counting at an account

This module proves that the counters of an account follow whatever happens there, as long as 32
bits hold what they count. The counters of the slots follow every call on a job that leaves room
for counting (`Move.slotsCounted`), and all counters follow whatever happens while fewer jobs than
a counter can tell are bound to the account (`Scene.Step.counted`). Beyond that a counter goes
round, and what is subtracted later no longer fits.
-/

namespace JobAdmission

variable {k : AccountKey} {j : JobId} {refusing : Bool} {rs : List HostRequest} {a a' : Account}
  {m m' : Option Member} {S : Finset JobId} {f : JobId → Option Member}

/-! ### Calls -/

section Calls

variable (h : Move k j refusing rs a m a' m') (hm : f j = m) (hj : j ∈ S)
  (plain : a.isPlaceholder = true → ∀ n, f j = some n →
    n.Plain ∧ j ∉ a.usage.gate.held ∧ j ∉ a.usage.gate.released)

include h hm hj plain

/-- The counters of the slots follow a call on a job that leaves room for counting. -/
theorem Move.slotsCounted (B : a.usage.Books f) (C : a.usage.SlotsCounted S f)
    (room : a'.Room S (Function.update f j m')) :
    a'.usage.SlotsCounted S (Function.update f j m') := by
  have reservations := (Nat.le_add_left ..).trans_lt room.taken
  cases h with
  | sit | enroll | refuse | prioritize | settle =>
    exact C.keep hj rfl rfl rfl (by simp [hm]) (by simp [hm])
  | @wave _ b =>
    have idle : b.runReserved = false := ((B.fits j _ hm).early (.inl rfl)).1.1
    exact C.keep hj rfl rfl rfl (by simp [hm]) (by simp [hm, idle])
  | @proceed _ _ b _ _ _ hg =>
    have idle : b.runReserved = false := ((B.fits j _ hm).early (.inl rfl)).1.1
    obtain ⟨-, -, rfl⟩ := Account.enterGate_proceed hg
    exact ⟨Counter.toNat_eq_tally C.running hj (by simp [hm]),
      C.balanced.proceed hj (by simp [hm, idle]) rfl rfl rfl reservations⟩
  | hold _ hg | moveInHeld _ hg _ =>
    obtain ⟨-, rfl⟩ := Account.enterGate_hold hg
    exact C.keep hj rfl rfl rfl (by simp [hm]) (by simp [hm])
  | @depart _ b _ hp =>
    have idle : b.runReserved = false ∧ b.countedRunning = false := (plain hp _ hm).1.slotless
    exact C.keep hj rfl rfl rfl (by simp [hm, idle.2]) (by simp [hm, idle.1])
  | moveIn _ hg _ =>
    obtain ⟨-, -, rfl⟩ := Account.enterGate_proceed hg
    exact ⟨Counter.toNat_eq_tally C.running hj (by simp [hm]),
      C.balanced.proceed hj (by simp [hm]) rfl rfl rfl reservations⟩
  | start => exact C.start B hj hm ((Nat.le_add_right ..).trans_lt room.taken)
  | leave hl => exact C.leave B hj hm decide_eq_true_iff hl
  | free hl hr =>
    obtain ⟨-, rfl⟩ := Account.releaseNext_none hr
    exact C.leave B hj hm decide_eq_true_iff hl
  | release hl hr =>
    exact (C.leave B hj hm decide_eq_true_iff hl).releaseNext (B.leave hl) hr room.taken
  | @keep _ a₁ _ _ _ _ hl hr =>
    have left := C.leave B hj hm decide_eq_true_iff hl
    obtain ⟨rest, queue, spare, -⟩ := Account.releaseNext_some hr
    rw [left.occupied] at spare
    -- one slot more could be counted, so the count did not go round when it went up and down
    have next : a₁.usage.taken S (Function.update f j none) + 1 < UInt32.size :=
      room.next (List.ne_nil_of_mem (queue ▸ List.mem_cons_self)) spare
    rw [← left.occupied, Usage.occupied] at next
    rw [Account.unreleased_eq (by omega)]
    exact left

/-- The counter of the active jobs follows a call on a job that leaves room for counting. -/
theorem Move.activeCounted (C : a.usage.active.toNat = tally S f (·.countedActive))
    (room : tally S (Function.update f j m') (·.countedActive) < UInt32.size) :
    a'.usage.active.toNat = tally S (Function.update f j m') (·.countedActive) := by
  cases h with
  | sit | wave | refuse | prioritize | settle | start =>
    exact Counter.toNat_eq_tally C hj (by simp [hm])
  | enroll => exact Counter.toNat_up_eq_tally C hj (by simp [hm]) rfl room
  | proceed _ hg =>
    obtain ⟨-, -, rfl⟩ := Account.enterGate_proceed hg
    exact Counter.toNat_eq_tally C hj (by simp [hm])
  | hold _ hg =>
    obtain ⟨-, rfl⟩ := Account.enterGate_hold hg
    exact Counter.toNat_eq_tally C hj (by simp [hm])
  | @depart _ b _ hp =>
    have uncounted : b.countedActive = false := (plain hp _ hm).1.active
    exact Counter.toNat_eq_tally C hj (by simp [hm, uncounted])
  | moveIn _ hg _ =>
    obtain ⟨-, -, rfl⟩ := Account.enterGate_proceed hg
    exact Counter.toNat_up_eq_tally C hj (by simp [hm]) rfl room
  | moveInHeld _ hg _ =>
    obtain ⟨-, rfl⟩ := Account.enterGate_hold hg
    exact Counter.toNat_up_eq_tally C hj (by simp [hm]) rfl room
  | leave hl | keep _ hl _ =>
    obtain ⟨-, rfl⟩ := Account.leave_eq hl
    exact Counter.toNat_leave_eq_tally C hj hm
  | free hl hr =>
    obtain ⟨-, rfl⟩ := Account.releaseNext_none hr
    obtain ⟨-, rfl⟩ := Account.leave_eq hl
    exact Counter.toNat_leave_eq_tally C hj hm
  | release hl hr =>
    obtain ⟨_, -, -, rfl⟩ := Account.releaseNext_some hr
    obtain ⟨-, rfl⟩ := Account.leave_eq hl
    exact Counter.toNat_leave_eq_tally C hj hm

/-- All counters follow a call on a job, while they can tell the number of jobs. -/
theorem Move.counted (known : ∀ i n, Function.update f j m' i = some n → i ∈ S)
    (B : a.usage.Books f) (C : a.usage.Counted S f)
    (few : headcount S (Function.update f j m') < UInt32.size) :
    a'.usage.Counted S (Function.update f j m') where
  toSlotsCounted := h.slotsCounted hm hj plain B C.toSlotsCounted
    (.of_headcount (h.books hm B plain) known few)
  active := h.activeCounted hm hj plain C.active ((tally_le_headcount _ _).trans_lt few)

end Calls

/-! ### Whatever happens -/

namespace Scene

variable {s s' : Scene} {granted : List Terms}

/-- The counters of the account are exact. -/
def Counted (s : Scene) : Prop := ∀ a, s.account = some a → a.usage.Counted s.arrived s.member

/-- How many live jobs are bound to the account. -/
def load (s : Scene) : ℕ := headcount s.arrived s.member

/-- The counters of an account stay exact whatever happens, while they can tell the number of the
jobs that are bound to it. -/
theorem Step.counted (h : Scene.Step k refusing granted rs s s') (hs : s.Sound k)
    (C : s.Counted) (few : s'.load < UInt32.size) : s'.Counted := by
  have known := (hs.step h).known
  cases h with
  | told =>
    rintro _ ⟨⟩
    cases ha : s.account with
    | none => exact .initial (hs.member_of_none ha)
    | some a => exact C a ha
  | quiet hS => exact fun a ha => (C a ha).mono hS hs.known
  | found hS ha =>
    rintro _ ⟨⟩
    exact .initial (hs.member_of_none ha)
  | @foundFor _ S j userid fairshare hS hj ha =>
    rintro _ ⟨⟩
    have empty := hs.member_of_none ha
    have sit : Move k j refusing [] (Account.placeholder userid fairshare) (s.member j)
        (.placeholder userid fairshare)
        (some ⟨.fresh, { account := (Account.placeholder userid fairshare).handle }, false⟩) := by
      rw [empty]
      exact .sit rfl
    exact sit.counted rfl hj (fun _ n hn => by simp [empty] at hn) known (.initial empty)
      (.initial empty) few
  | @move _ S j rs a a' m' hS hj ha h =>
    rintro _ ⟨⟩
    exact h.counted rfl hj (fun hp n hn => hs.plain a ha hp j n hn) known (hs.books a ha)
      ((C a ha).mono hS hs.known) few

end Scene

end JobAdmission

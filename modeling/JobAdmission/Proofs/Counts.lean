import JobAdmission.Proofs.Books
import Mathlib.Algebra.BigOperators.Group.Finset.Piecewise
import Mathlib.Algebra.Order.BigOperators.Group.Finset

/-!
# The counters of an account

An account counts its jobs with counters of 32 bits. This module says what it means that they are
exact (`Usage.Counted`): each tells the number of the jobs that it counts, where the reserved slots
are those of jobs and of the released set (`Gate.reservations`). It proves what each change that
the engine makes for one job does to these numbers, and that the counters follow as long as 32 bits
hold the numbers (`Counter.toNat_eq_tally`, `Gate.Balanced.proceed` and others). An account whose
books are right has no more slots in use than jobs (`Usage.Books.taken_add_held_le`), so 32 bits
hold all its numbers while they hold the number of its jobs.
-/

namespace JobAdmission

/-! ### Counting -/

/-- One, if there is a job and its binding has the property. -/
def Member.flag (p : JobBinding → Bool) (m : Option Member) : ℕ :=
  (m.any fun m => p m.binding).toNat

@[simp] theorem Member.flag_none (p : JobBinding → Bool) : Member.flag p none = 0 := rfl

@[simp] theorem Member.flag_some (p : JobBinding → Bool) (m : Member) :
    Member.flag p (some m) = (p m.binding).toNat := rfl

/-- How many jobs of a set have a binding with the property. -/
def tally (S : Finset JobId) (f : JobId → Option Member) (p : JobBinding → Bool) : ℕ :=
  (S.filter fun j => (f j).any fun m => p m.binding).card

section Tally

variable {S : Finset JobId} (f : JobId → Option Member) (p : JobBinding → Bool) {j : JobId}

theorem tally_eq_add_flag (hj : j ∈ S) :
    tally S f p = tally (S.erase j) f p + Member.flag p (f j) := by
  conv_lhs => rw [tally, ← Finset.insert_erase hj, Finset.filter_insert]
  unfold tally Member.flag
  split_ifs with h
  · rw [h, Finset.card_insert_of_notMem (by simp)]
    rfl
  · rw [Bool.not_eq_true] at h
    rw [h]
    rfl

/-- A change of one job changes a count by what that job adds to it. -/
theorem tally_update (hj : j ∈ S) (m : Option Member) :
    tally S (Function.update f j m) p + Member.flag p (f j) =
      tally S f p + Member.flag p m := by
  have rest : tally (S.erase j) (Function.update f j m) p = tally (S.erase j) f p := by
    unfold tally
    congr 1
    refine Finset.filter_congr fun i hi => ?_
    rw [Function.update_of_ne (Finset.ne_of_mem_erase hi)]
  rw [tally_eq_add_flag _ p hj, tally_eq_add_flag f p hj, rest, Function.update_self]
  omega

theorem flag_le_tally (hj : j ∈ S) : Member.flag p (f j) ≤ tally S f p := by
  rw [tally_eq_add_flag f p hj]
  omega

/-- A job that changes and counts as before leaves a count alone. -/
theorem tally_update_of_same (hj : j ∈ S) {m : Option Member}
    (same : Member.flag p m = Member.flag p (f j)) :
    tally S (Function.update f j m) p = tally S f p := by
  have := tally_update f p hj m
  omega

/-- The jobs of a set stay all that there are if one of them changes. -/
theorem mem_of_update {f : JobId → Option Member} (known : ∀ i m, f i = some m → i ∈ S)
    (hj : j ∈ S) {o : Option Member} (i : JobId) (m : Member)
    (hm : Function.update f j o i = some m) : i ∈ S := by
  by_cases hij : i = j
  · exact hij ▸ hj
  · rw [Function.update_of_ne hij] at hm
    exact known i m hm

/-- Jobs that are not there do not count. -/
theorem tally_of_subset {f : JobId → Option Member} {T : Finset JobId} (hST : S ⊆ T)
    (hf : ∀ i m, f i = some m → i ∈ S) : tally T f p = tally S f p := by
  unfold tally
  congr 1
  ext i
  simp only [Finset.mem_filter]
  constructor
  · rintro ⟨-, hp⟩
    obtain ⟨m, hm, -⟩ := (Option.any_eq_true _ _).mp hp
    exact ⟨hf i m hm, hp⟩
  · rintro ⟨hi, hp⟩
    exact ⟨hST hi, hp⟩

end Tally

/-- How many jobs there are. -/
def headcount (S : Finset JobId) (f : JobId → Option Member) : ℕ := tally S f fun _ => true

theorem tally_le_headcount {S : Finset JobId} (f : JobId → Option Member) (p : JobBinding → Bool) :
    tally S f p ≤ headcount S f := by
  refine Finset.card_le_card (Finset.monotone_filter_right _ fun j _ hj => ?_)
  obtain ⟨m, hm, -⟩ := (Option.any_eq_true _ _).mp hj
  exact (Option.any_eq_true _ _).mpr ⟨m, hm, rfl⟩

/-! ### Counters that follow a count -/

namespace Counter

variable {n : Counter} {S : Finset JobId} {f : JobId → Option Member} {p : JobBinding → Bool}
  {j : JobId} {o : Option Member}

theorem toNat_eq_tally (hn : n.toNat = tally S f p) (hj : j ∈ S)
    (same : Member.flag p o = Member.flag p (f j)) :
    n.toNat = tally S (Function.update f j o) p :=
  hn.trans (tally_update_of_same f p hj same).symm

theorem toNat_up_eq_tally (hn : n.toNat = tally S f p) (hj : j ∈ S)
    (was : Member.flag p (f j) = 0) (now : Member.flag p o = 1)
    (room : tally S (Function.update f j o) p < UInt32.size) :
    n.up.toNat = tally S (Function.update f j o) p := by
  have change := tally_update f p hj o
  rw [was, now, ← hn, Nat.add_zero] at change
  rw [change] at room ⊢
  exact toNat_up room

/-- A counter goes down by what a job was counted that leaves. -/
theorem toNat_leave_eq_tally (hn : n.toNat = tally S f p) (hj : j ∈ S) {m : Member}
    (hm : f j = some m) :
    (if p m.binding then n.down else n).toNat = tally S (Function.update f j none) p := by
  have change := tally_update f p hj none
  rw [hm, Member.flag_some, Member.flag_none, ← hn] at change
  split
  · rename_i counted
    rw [counted, Bool.toNat_true] at change
    rw [toNat_down]
    omega
  · rename_i uncounted
    rw [Bool.not_eq_true] at uncounted
    rw [uncounted, Bool.toNat_false] at change
    omega

end Counter

/-! ### Reserved slots -/

namespace Gate

variable {g g' : Gate} {S : Finset JobId} {f : JobId → Option Member} {i j : JobId} {m : Member}
  {o : Option Member} {r : Bool}

/-- The slots that are reserved for jobs: one for each job that has one of its own, and one for
each job that the gate released. -/
def reservations (g : Gate) (S : Finset JobId) (f : JobId → Option Member) : ℕ :=
  tally S f (·.runReserved) + g.released.size

/-- A job changes, and the released ones do not. -/
theorem reservations_update (hj : j ∈ S) (released : g'.released = g.released) :
    g'.reservations S (Function.update f j o) + Member.flag (·.runReserved) (f j) =
      g.reservations S f + Member.flag (·.runReserved) o := by
  have change := tally_update f (·.runReserved) hj o
  rw [reservations, reservations, released]
  omega

/-- A job frees the slot that it has: its own or the one of its release, but never both. -/
theorem Coherent.reservations_freeSlot (C : g.Coherent f) (hj : j ∈ S) (hm : f j = some m)
    (hr : Member.flag (·.runReserved) o = 0) :
    (g.freeSlot j m.binding.runReserved).reservations S (Function.update f j o) +
        (g.hasSlot j m.binding.runReserved).toNat = g.reservations S f := by
  have change := tally_update f (·.runReserved) hj o
  rw [hm, Member.flag_some, hr, Nat.add_zero] at change
  have size := Std.ExtTreeSet.size_erase (t := g.released) (k := j)
  simp only [reservations, Gate.freeSlot, hasSlot, size]
  by_cases hl : j ∈ g.released
  · have pos := size_pos_of_mem hl
    obtain ⟨m', hm', slotless⟩ := C.released j hl
    cases hm.symm.trans hm'
    rw [Std.ExtTreeSet.mem_iff_contains] at hl
    rw [slotless, Bool.toNat_false] at change
    simp only [hl, Bool.or_true, if_true, Bool.toNat_true]
    omega
  · simp only [contains_eq_false hl, Bool.or_false, Bool.false_eq_true, if_false]
    omega

/-- A job is released, with a slot. -/
theorem reservations_insert (hj : j ∉ g.released) (released : g'.released = g.released.insert j) :
    g'.reservations S f = g.reservations S f + 1 := by
  rw [reservations, reservations, released, Std.ExtTreeSet.size_insert, contains_eq_false hj]
  rfl

/-- The counter of the reserved slots is exact. -/
def Balanced (g : Gate) (S : Finset JobId) (f : JobId → Option Member) : Prop :=
  g.reserved.toNat = g.reservations S f

namespace Balanced

/-- A gate without jobs is balanced. -/
theorem initial (hf : ∀ i, f i = none) : Balanced {} S f := by
  simp [Balanced, reservations, tally, hf]

/-- Jobs can be announced without being bound. -/
theorem mono (B : g.Balanced S f) {T : Finset JobId} (hST : S ⊆ T)
    (hf : ∀ i m, f i = some m → i ∈ S) : g.Balanced T f := by
  rw [Balanced, reservations, tally_of_subset _ hST hf]
  exact B

/-- A job changes and has a slot of its own if it had one. -/
theorem keep (B : g.Balanced S f) (hj : j ∈ S) (reserved : g'.reserved = g.reserved)
    (released : g'.released = g.released)
    (slot : Member.flag (·.runReserved) o = Member.flag (·.runReserved) (f j)) :
    g'.Balanced S (Function.update f j o) := by
  have change := reservations_update (o := o) (f := f) hj released
  rw [Balanced] at B ⊢
  rw [reserved]
  omega

/-- A job that has no slot is let through. -/
theorem proceed {m' : Member} (B : g.Balanced S f) (hj : j ∈ S)
    (slotless : Member.flag (·.runReserved) (f j) = 0) (hr : m'.binding.runReserved = r)
    (reserved : g'.reserved = if r then g.reserved.up else g.reserved)
    (released : g'.released = g.released)
    (room : g'.reservations S (Function.update f j (some m')) < UInt32.size) :
    g'.Balanced S (Function.update f j (some m')) := by
  have change := reservations_update (o := some m') (f := f) hj released
  rw [slotless, Member.flag_some, hr] at change
  rw [Balanced] at B ⊢
  rw [reserved]
  cases r with
  | false => simpa [B] using change.symm
  | true =>
    rw [Bool.toNat_true, ← B, Nat.add_zero] at change
    rw [change] at room ⊢
    exact Counter.toNat_up room

/-- A job frees its slot, and has none of its own any more. -/
theorem freeSlot (B : g.Balanced S f) (C : g.Coherent f) (hj : j ∈ S) (hm : f j = some m)
    (hr : Member.flag (·.runReserved) o = 0) :
    (g.freeSlot j m.binding.runReserved).Balanced S (Function.update f j o) := by
  have change := C.reservations_freeSlot hj hm hr
  rw [Balanced] at B ⊢
  cases h : g.hasSlot j m.binding.runReserved with
  | false =>
    rw [h] at change
    simpa [Gate.freeSlot, h, B] using change.symm
  | true =>
    rw [h, Bool.toNat_true] at change
    have counter : (g.freeSlot j m.binding.runReserved).reserved = g.reserved.down := by
      simp [Gate.freeSlot, h]
    rw [counter, Counter.toNat_down]
    omega

/-- A job leaves the gate, and has no slot of its own any more. -/
theorem withdraw (B : g.Balanced S f) (C : g.Coherent f) (hj : j ∈ S) (hm : f j = some m) :
    (g.withdraw j m.binding.runReserved).2.Balanced S (Function.update f j none) :=
  B.freeSlot C hj hm (o := none) rfl

/-- A job is released, with a slot. -/
theorem release (B : g.Balanced S f) (hj : j ∉ g.released)
    (released : g'.released = g.released.insert j) (reserved : g'.reserved = g.reserved.up)
    (room : g'.reservations S f < UInt32.size) : g'.Balanced S f := by
  have change := reservations_insert (S := S) (f := f) hj released
  rw [Balanced] at B ⊢
  rw [reserved]
  rw [change, ← B] at room
  rw [change, ← B]
  exact Counter.toNat_up room

end Balanced

/-- A job that has a slot has one of the reserved ones. -/
theorem Coherent.reservations_pos (C : g.Coherent f) (hj : j ∈ S) (hm : f j = some m)
    (h : g.hasSlot j m.binding.runReserved = true) : 0 < g.reservations S f := by
  have change := C.reservations_freeSlot (o := none) hj hm rfl
  rw [h, Bool.toNat_true] at change
  omega

/-! ### Slots and jobs -/

/-- The released jobs are jobs of the account. -/
theorem Coherent.size_released (C : g.Coherent f) (known : ∀ i m, f i = some m → i ∈ S) :
    g.released.size = (S.filter (· ∈ g.released)).card := by
  have nodup : g.released.toList.Nodup :=
    (Std.ExtTreeSet.distinct_toList (t := g.released)).imp fun hne heq =>
      hne (Std.LawfulEqOrd.compare_eq_iff_eq.mpr heq)
  rw [← Std.ExtTreeSet.length_toList, ← List.toFinset_card_of_nodup nodup]
  congr 1
  ext i
  rw [List.mem_toFinset, Std.ExtTreeSet.mem_toList, Finset.mem_filter, iff_and_self]
  intro hi
  obtain ⟨m, hm, -⟩ := C.released i hi
  exact known i m hm

/-- The held jobs are jobs of the account. -/
theorem Coherent.length_held (C : g.Coherent f) (known : ∀ i m, f i = some m → i ∈ S) :
    g.held.length = (S.filter (· ∈ g.held)).card := by
  rw [← List.toFinset_card_of_nodup C.nodup]
  congr 1
  ext i
  rw [List.mem_toFinset, Finset.mem_filter, iff_and_self]
  intro hi
  obtain ⟨-, m, hm, -⟩ := C.held i hi
  exact known i m hm

/-- Some jobs of the account are counted by a count. Where none of them has a slot reserved or is
held, there are not more slots and held jobs than jobs. -/
theorem Coherent.tally_add_le (C : g.Coherent f) (known : ∀ i m, f i = some m → i ∈ S)
    {p : JobBinding → Bool} (apart : ∀ i m, f i = some m → p m.binding = true →
      m.binding.runReserved = false ∧ i ∉ g.held ∧ i ∉ g.released) :
    tally S f p + g.reservations S f + g.held.length ≤ headcount S f := by
  -- each job is in one place
  rw [reservations, C.size_released known, C.length_held known, headcount]
  simp only [tally, Finset.card_filter, ← Finset.sum_add_distrib]
  refine Finset.sum_le_sum fun i _ => ?_
  cases hi : f i with
  | none =>
    obtain ⟨hh, hl⟩ := C.notMem_of_none hi
    simp [hh, hl]
  | some m =>
    have notReleased : i ∈ g.held → i ∉ g.released := fun hh => (C.held i hh).1
    have slotless : i ∈ g.held ∨ i ∈ g.released → m.binding.runReserved = false := by
      intro known
      obtain ⟨m', hm', hr⟩ := known.elim (fun h => (C.held i h).2) (C.released i)
      cases hi.symm.trans hm'
      exact hr
    by_cases hp : p m.binding = true
    · obtain ⟨hr, hh, hl⟩ := apart i m hi hp
      simp [hp, hr, hh, hl]
    · by_cases hh : i ∈ g.held
      · simp [hp, hh, notReleased hh, slotless (.inl hh)]
      · by_cases hl : i ∈ g.released
        · simp [hp, hh, hl, slotless (.inr hl)]
        · cases hr : m.binding.runReserved <;> simp [hp, hh, hl, hr]

/-- There are not more reserved slots and held jobs than jobs. -/
theorem Coherent.reservations_add_held_le (C : g.Coherent f)
    (known : ∀ i m, f i = some m → i ∈ S) :
    g.reservations S f + g.held.length ≤ headcount S f := by
  have all := C.tally_add_le known (p := fun _ => false) (by simp)
  omega

end Gate

/-! ### Exact counters -/

/-- The slots that jobs have: those that they run on, and those that are reserved for them. -/
def Usage.taken (u : Usage) (S : Finset JobId) (f : JobId → Option Member) : ℕ :=
  tally S f (·.countedRunning) + u.gate.reservations S f

/-- The counters of the slots are exact. -/
structure Usage.SlotsCounted (u : Usage) (S : Finset JobId) (f : JobId → Option Member) :
    Prop where
  running : u.running.toNat = tally S f (·.countedRunning)
  balanced : u.gate.Balanced S f

/-- The counters are exact. -/
structure Usage.Counted (u : Usage) (S : Finset JobId) (f : JobId → Option Member) : Prop extends
    u.SlotsCounted S f where
  active : u.active.toNat = tally S f (·.countedActive)

namespace Usage

variable {u u' : Usage} {a a' : Account} {S : Finset JobId} {f : JobId → Option Member}
  {j n : JobId} {m : Member} {o : Option Member} {ran freed : Bool}

theorem SlotsCounted.occupied (C : u.SlotsCounted S f) : u.occupied = u.taken S f :=
  congrArg₂ (· + ·) C.running C.balanced

/-- An account without jobs has exact counters. -/
theorem Counted.initial (hf : ∀ i, f i = none) : Usage.Counted {} S f where
  running := by simp [tally, hf]
  balanced := .initial hf
  active := by simp [tally, hf]

/-- Jobs can be announced without being bound. -/
theorem SlotsCounted.mono (C : u.SlotsCounted S f) {T : Finset JobId} (hST : S ⊆ T)
    (hf : ∀ i m, f i = some m → i ∈ S) : u.SlotsCounted T f where
  running := C.running.trans (tally_of_subset _ hST hf).symm
  balanced := C.balanced.mono hST hf

theorem Counted.mono (C : u.Counted S f) {T : Finset JobId} (hST : S ⊆ T)
    (hf : ∀ i m, f i = some m → i ∈ S) : u.Counted T f where
  toSlotsCounted := C.toSlotsCounted.mono hST hf
  active := C.active.trans (tally_of_subset _ hST hf).symm

theorem taken_mono {T : Finset JobId} (hST : S ⊆ T) (hf : ∀ i m, f i = some m → i ∈ S) :
    u.taken T f = u.taken S f := by
  rw [taken, taken, Gate.reservations, Gate.reservations, tally_of_subset _ hST hf,
    tally_of_subset _ hST hf]

/-! ### Slots that are taken -/

/-- A job changes and takes a slot as before. -/
theorem taken_update (hj : j ∈ S) (released : u'.gate.released = u.gate.released)
    (running : Member.flag (·.countedRunning) o = Member.flag (·.countedRunning) (f j)) :
    u'.taken S (Function.update f j o) + Member.flag (·.runReserved) (f j) =
      u.taken S f + Member.flag (·.runReserved) o := by
  have change := Gate.reservations_update (o := o) (f := f) hj released
  rw [taken, taken, tally_update_of_same f _ hj running]
  omega

/-- A job changes and takes no other slot than before. -/
theorem taken_keep (hj : j ∈ S) (released : u'.gate.released = u.gate.released)
    (running : Member.flag (·.countedRunning) o = Member.flag (·.countedRunning) (f j))
    (slot : Member.flag (·.runReserved) o = Member.flag (·.runReserved) (f j)) :
    u'.taken S (Function.update f j o) = u.taken S f := by
  have change := taken_update hj released running
  omega

/-- A job that changes takes at most one slot more, if it runs as before. -/
theorem taken_update_le (hj : j ∈ S) (released : u'.gate.released = u.gate.released)
    (running : Member.flag (·.countedRunning) o = Member.flag (·.countedRunning) (f j)) :
    u'.taken S (Function.update f j o) ≤ u.taken S f + 1 := by
  have change := taken_update hj released running
  have one : Member.flag (·.runReserved) o ≤ 1 := Bool.toNat_le _
  omega

/-- A job without a slot that changes takes no slot less, if it runs as before. -/
theorem taken_le_update (hj : j ∈ S) (released : u'.gate.released = u.gate.released)
    (running : Member.flag (·.countedRunning) o = Member.flag (·.countedRunning) (f j))
    (slotless : Member.flag (·.runReserved) (f j) = 0) :
    u.taken S f ≤ u'.taken S (Function.update f j o) := by
  have change := taken_update hj released running
  omega

/-- A job that runs has no slot beside the one that it runs on. -/
theorem Books.hasSlot_of_running (B : u.Books f) (hm : f j = some m) (hp : m.phase = .running) :
    u.gate.hasSlot j m.binding.runReserved = false := by
  have fits := B.fits j m hm
  have hl : j ∉ u.gate.released := by
    intro hl
    simpa [fits.counted.mpr hp] using (fits.released hl).2
  simp [Gate.hasSlot, fits.running hp, Gate.contains_eq_false hl]

/-- A job that leaves frees the one slot that it has, or none. -/
theorem Books.taken_leave (B : a.usage.Books f) (hj : j ∈ S) (hm : f j = some m)
    (hr : ran = true ↔ m.phase = .running) (h : a.leave j m.binding ran = (freed, a')) :
    a'.usage.taken S (Function.update f j none) + freed.toNat = a.usage.taken S f := by
  have slot := B.coherent.reservations_freeSlot (o := none) hj hm rfl
  have running := tally_update f (·.countedRunning) hj none
  have counted := (B.fits j m hm).counted
  rw [hm, Member.flag_some, Member.flag_none, Nat.add_zero] at running
  obtain ⟨rfl, rfl⟩ := Account.leave_eq h
  simp only [taken, Gate.withdraw, Gate.reservations, Gate.freeSlot] at slot ⊢
  cases ran with
  | false =>
    have idle : m.binding.countedRunning = false := by
      rw [← Bool.not_eq_true, counted, ← hr]
      exact Bool.false_ne_true
    rw [idle, Bool.toNat_false] at running
    rw [Bool.or_false]
    omega
  | true =>
    have runs : m.phase = .running := hr.mp rfl
    rw [counted.mpr runs, Bool.toNat_true] at running
    rw [B.hasSlot_of_running hm runs, Bool.toNat_false] at slot
    rw [Bool.or_true, Bool.toNat_true]
    omega

/-- A job that runs takes the slot that it has along, or a new one. -/
theorem Books.taken_start (B : a.usage.Books f) (hj : j ∈ S) {b : JobBinding} {marked : Bool}
    (hm : f j = some ⟨.ready, b, marked⟩) :
    (a.start j b).usage.taken S (Function.update f j
        (some ⟨.running, { b with runReserved := false, countedRunning := true }, false⟩)) +
      (a.usage.gate.hasSlot j b.runReserved).toNat = a.usage.taken S f + 1 := by
  have slot := B.coherent.reservations_freeSlot (o := some ⟨.running, { b with
    runReserved := false, countedRunning := true }, false⟩) hj hm rfl
  have running := tally_update f (·.countedRunning) hj
    (some ⟨.running, { b with runReserved := false, countedRunning := true }, false⟩)
  have hc : b.countedRunning = false := by
    simpa using mt (B.fits j _ hm).counted.mp (by simp)
  rw [hm, Member.flag_some, Member.flag_some, hc] at running
  simp only [taken, Account.start, Gate.started, Bool.toNat_false, Bool.toNat_true,
    Nat.add_zero] at slot running ⊢
  omega

/-- There are not more slots taken and jobs held than jobs. -/
theorem Books.taken_add_held_le (B : u.Books f) (known : ∀ i m, f i = some m → i ∈ S) :
    u.taken S f + u.gate.held.length ≤ headcount S f := by
  refine B.coherent.tally_add_le known fun i m hm hc => ?_
  have fits := B.fits i m hm
  refine ⟨fits.running (fits.counted.mp hc), fun hh => ?_, fun hl => ?_⟩
  · simpa [hc] using (fits.held hh).1.2
  · simpa [hc] using (fits.released hl).2

/-- Where a slot is taken, a job has it that is not held. -/
theorem Books.exists_occupant (B : u.Books f) (pos : 0 < u.taken S f) :
    ∃ j m, f j = some m ∧ j ∉ u.gate.held ∧
      (u.gate.hasSlot j m.binding.runReserved = true ∨ m.phase = .running) := by
  have counted : ∀ p, 0 < tally S f p → ∃ j m, f j = some m ∧ p m.binding = true := by
    intro p hp
    obtain ⟨j, hj⟩ := Finset.card_pos.mp hp
    obtain ⟨m, hm, hp⟩ := (Option.any_eq_true _ _).mp (Finset.mem_filter.mp hj).2
    exact ⟨j, m, hm, hp⟩
  have use : 0 < tally S f (·.countedRunning) ∨ 0 < tally S f (·.runReserved) ∨
      0 < u.gate.released.size := by
    unfold taken Gate.reservations at pos
    omega
  rcases use with h | h | h
  · obtain ⟨j, m, hm, hc⟩ := counted _ h
    have fits := B.fits j m hm
    refine ⟨j, m, hm, ?_, .inr (fits.counted.mp hc)⟩
    intro hj
    simpa [hc] using (fits.held hj).1.2
  · obtain ⟨j, m, hm, hr⟩ := counted _ h
    refine ⟨j, m, hm, ?_, .inl (by simp [Gate.hasSlot, hr])⟩
    intro hj
    simpa [hr] using ((B.fits j m hm).held hj).1.1
  · obtain ⟨j, hj⟩ := Gate.exists_mem_of_size_pos h
    obtain ⟨m, hm⟩ := B.released j hj
    refine ⟨j, m, hm, fun hh => ((B.fits j m hm).held hh).2 hj, .inl ?_⟩
    simp [Gate.hasSlot, Std.ExtTreeSet.mem_iff_contains.mp hj]

/-! ### Counters of slots -/

namespace SlotsCounted

/-- A job changes and takes a slot as before. -/
theorem keep (C : u.SlotsCounted S f) (hj : j ∈ S) (runningCount : u'.running = u.running)
    (reserved : u'.gate.reserved = u.gate.reserved)
    (released : u'.gate.released = u.gate.released)
    (running : Member.flag (·.countedRunning) o = Member.flag (·.countedRunning) (f j))
    (slot : Member.flag (·.runReserved) o = Member.flag (·.runReserved) (f j)) :
    u'.SlotsCounted S (Function.update f j o) where
  running := by
    rw [runningCount]
    exact Counter.toNat_eq_tally C.running hj running
  balanced := C.balanced.keep hj reserved released slot

/-- A job leaves. It ran exactly if it is in the last phase. -/
theorem leave (C : a.usage.SlotsCounted S f) (B : a.usage.Books f) (hj : j ∈ S)
    (hm : f j = some m) (hr : ran = true ↔ m.phase = .running)
    (h : a.leave j m.binding ran = (freed, a')) :
    a'.usage.SlotsCounted S (Function.update f j none) := by
  have hc : ran = m.binding.countedRunning := by
    rw [Bool.eq_iff_iff, hr, (B.fits j m hm).counted]
  obtain ⟨-, rfl⟩ := Account.leave_eq h
  refine ⟨?_, C.balanced.withdraw B.coherent hj hm⟩
  rw [hc, Bool.and_self]
  exact Counter.toNat_leave_eq_tally C.running hj hm

/-- A job with a priority runs. -/
theorem start (C : a.usage.SlotsCounted S f) (B : a.usage.Books f) (hj : j ∈ S) {b : JobBinding}
    {marked : Bool} (hm : f j = some ⟨.ready, b, marked⟩)
    (room : tally S (Function.update f j (some ⟨.running, { b with
      runReserved := false, countedRunning := true }, false⟩)) (·.countedRunning) < UInt32.size) :
    (a.start j b).usage.SlotsCounted S (Function.update f j
      (some ⟨.running, { b with runReserved := false, countedRunning := true }, false⟩)) := by
  have hc : b.countedRunning = false := by
    simpa using mt (B.fits j _ hm).counted.mp (by simp)
  refine ⟨?_, C.balanced.freeSlot B.coherent hj hm rfl⟩
  simp only [Account.start, hc, Bool.false_eq_true, if_false]
  exact Counter.toNat_up_eq_tally C.running hj (by simp [hm, hc]) rfl room

/-- The next held job is released. -/
theorem releaseNext (C : a.usage.SlotsCounted S f) (B : a.usage.Books f)
    (h : a.releaseNext = (some n, a')) (room : a'.usage.taken S f < UInt32.size) :
    a'.usage.SlotsCounted S f := by
  have notReleased := B.coherent.notMem_released_of_releaseNext h
  obtain ⟨rest, -, -, rfl⟩ := Account.releaseNext_some h
  exact ⟨C.running, C.balanced.release notReleased rfl rfl
    ((Nat.le_add_left ..).trans_lt room)⟩

end SlotsCounted

/-- The release of the next held job takes a slot. -/
theorem Books.taken_releaseNext (B : a.usage.Books f) (h : a.releaseNext = (some n, a')) :
    a'.usage.taken S f = a.usage.taken S f + 1 := by
  have notReleased := B.coherent.notMem_released_of_releaseNext h
  obtain ⟨rest, -, -, rfl⟩ := Account.releaseNext_some h
  rw [taken, taken, Gate.reservations_insert (g := a.usage.gate) notReleased rfl]
  rfl

end Usage

/-! ### Room for counting -/

/-- The counters of the account can tell the slots that jobs have, and one slot more where the next
held job can be released. -/
structure Account.Room (a : Account) (S : Finset JobId) (f : JobId → Option Member) : Prop where
  taken : a.usage.taken S f < UInt32.size
  next : a.usage.gate.held ≠ [] →
    (∀ c, a.terms.runLimit.cap = some c → a.usage.taken S f < c) →
      a.usage.taken S f + 1 < UInt32.size

namespace Account.Room

variable {a : Account} {S : Finset JobId} {f : JobId → Option Member}

/-- There is room within a cap. -/
theorem of_capped {c : UInt32} (hcap : a.terms.runLimit = .capped c)
    (within : a.usage.taken S f ≤ c.toNat) : a.Room S f where
  taken := within.trans_lt c.toNat_lt
  next _ room := by
    have below := room c.toNat (by rw [hcap]; rfl)
    exact (Nat.succ_le_of_lt below).trans_lt c.toNat_lt

/-- There is room while the counters can tell the number of jobs. -/
theorem of_headcount (B : a.usage.Books f) (known : ∀ i m, f i = some m → i ∈ S)
    (few : headcount S f < UInt32.size) : a.Room S f where
  taken := ((Nat.le_add_right ..).trans (B.taken_add_held_le known)).trans_lt few
  next held _ := by
    have pos := List.length_pos_iff.mpr held
    have le := B.taken_add_held_le known
    omega

end Account.Room

end JobAdmission

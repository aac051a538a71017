import JobAdmission.Proofs.Gate
import JobAdmission.Proofs.World

/-!
# The books of an account

An account knows which of its jobs are held or released, and each job knows what of it was
counted. This module says what it means that the two agree (`Usage.Books`): the queue of held
jobs holds each job once, the gate knows only jobs of the account, and each of them is in one
place and in the right phase for it. It proves that every change that the engine makes for one
job keeps this, if the account and the job change together (`Books.update` and what follows
from it), and that a release keeps it (`Books.releaseNext`). The part of it that is about the
gate alone stands first (`Gate.Coherent`). Nothing here hangs on the counters of the account.
-/

namespace JobAdmission

/-- A live job as the account that it is bound to sees it. -/
structure Member where
  /-- How far it has come. -/
  phase : Phase
  /-- What of it is counted. -/
  binding : JobBinding
  /-- What is kept for it tells that it was held. -/
  marked : Bool

/-! ### Places at the gate -/

/-- The job has no slot of its own: none is reserved for it, and it does not run. -/
def Member.Slotless (m : Member) : Prop :=
  m.binding.runReserved = false ∧ m.binding.countedRunning = false

/-- What a job knows of itself fits what the gate knows of it: it is held, or released, or
has a slot, or none of these, and it comes to that in the right phase. It is marked as held
until it runs. -/
structure Member.Fits (m : Member) (g : Gate) (j : JobId) : Prop where
  held : j ∈ g.held → m.Slotless ∧ j ∉ g.released
  released : j ∈ g.released → m.Slotless
  early : m.phase = .fresh ∨ m.phase = .stopped → m.Slotless ∧ j ∉ g.held ∧ j ∉ g.released
  counted : m.binding.countedRunning = true ↔ m.phase = .running
  running : m.phase = .running → m.binding.runReserved = false
  marked : m.marked = true ↔ j ∈ g.held ∨ j ∈ g.released

/-- Two gates that agree on a job. -/
def Gate.AgreeOn (g g' : Gate) (j : JobId) : Prop :=
  (j ∈ g'.held ↔ j ∈ g.held) ∧ (j ∈ g'.released ↔ j ∈ g.released)

theorem Member.Fits.of_agree {m : Member} {g g' : Gate} {j : JobId} (h : m.Fits g j)
    (hg : g.AgreeOn g' j) : m.Fits g' j where
  held hj := by
    rw [hg.2]
    exact h.held (hg.1.mp hj)
  released hj := h.released (hg.2.mp hj)
  early hp := by
    rw [hg.1, hg.2]
    exact h.early hp
  counted := h.counted
  running := h.running
  marked := by
    rw [hg.1, hg.2]
    exact h.marked

/-- A job that the gate does not know is not marked. -/
theorem Member.Fits.unmarked {m : Member} {g : Gate} {j : JobId} (h : m.Fits g j)
    (held : j ∉ g.held) (released : j ∉ g.released) : m.marked = false := by
  rw [← Bool.not_eq_true, h.marked, not_or]
  exact ⟨held, released⟩

/-- The gate does not know a job that is not marked. -/
theorem Member.unmarked_iff {m : Member} {g : Gate} {j : JobId} (hm : m.marked = false)
    (held : j ∉ g.held) (released : j ∉ g.released) :
    m.marked = true ↔ j ∈ g.held ∨ j ∈ g.released := by
  simp [hm, held, released]

/-- A job on its way does not run, and may be anywhere at the gate. -/
theorem Member.Fits.onWay {m : Member} {g : Gate} {j : JobId}
    (hp : m.phase = .waiting ∨ m.phase = .ready) (hc : m.binding.countedRunning = false)
    (held : j ∈ g.held → m.Slotless ∧ j ∉ g.released) (released : j ∈ g.released → m.Slotless)
    (marked : m.marked = true ↔ j ∈ g.held ∨ j ∈ g.released) : m.Fits g j where
  held := held
  released := released
  early h := by
    rcases hp with hp | hp <;> simp [hp] at h
  counted := by
    rw [hc]
    rcases hp with hp | hp <;> simp [hp]
  running h := by
    rcases hp with hp | hp <;> simp [hp] at h
  marked := marked

/-- The gate knows only jobs that are there. No job is held twice, and a job that is held or
released has no slot of its own. -/
structure Gate.Coherent (g : Gate) (f : JobId → Option Member) : Prop where
  nodup : g.held.Nodup
  held : ∀ j ∈ g.held, j ∉ g.released ∧ ∃ m, f j = some m ∧ m.binding.runReserved = false
  released : ∀ j ∈ g.released, ∃ m, f j = some m ∧ m.binding.runReserved = false

namespace Gate.Coherent

variable {g : Gate} {f : JobId → Option Member} {j : JobId} {m : Member} {m' : Option Member}

theorem orderly (C : g.Coherent f) : g.Orderly := ⟨C.nodup, fun j hj => (C.held j hj).1⟩

/-- A gate without jobs is coherent. -/
theorem initial : Gate.Coherent {} f where
  nodup := .nil
  held := by simp
  released := by simp

/-- A gate that holds and released the same jobs is as coherent. -/
theorem of_same {g' : Gate} (C : g.Coherent f) (held : g'.held = g.held)
    (released : g'.released = g.released) : g'.Coherent f where
  nodup := held ▸ C.nodup
  held := by
    rw [held, released]
    exact C.held
  released := by
    rw [released]
    exact C.released

/-- The gate knows no job that is not there. -/
theorem notMem_of_none (C : g.Coherent f) (hf : f j = none) : j ∉ g.held ∧ j ∉ g.released := by
  constructor
  · intro hj
    obtain ⟨-, m, hm, -⟩ := C.held j hj
    simp [hf] at hm
  · intro hj
    obtain ⟨m, hm, -⟩ := C.released j hj
    simp [hf] at hm

/-! ### Changes of one job -/

/-- One job and the gate change together, and the gate at no other job's place. -/
theorem update {g' : Gate} (C : g.Coherent f) (nodup : g'.held.Nodup)
    (others : ∀ i, i ≠ j → g.AgreeOn g' i) (apart : j ∈ g'.held → j ∉ g'.released)
    (self : j ∈ g'.held ∨ j ∈ g'.released →
      ∃ n, m' = some n ∧ n.binding.runReserved = false) :
    g'.Coherent (Function.update f j m') := by
  refine ⟨nodup, fun i hi => ?_, fun i hi => ?_⟩
  · by_cases hij : i = j
    · subst hij
      rw [Function.update_self]
      exact ⟨apart hi, self (.inl hi)⟩
    · rw [Function.update_of_ne hij, (others i hij).2]
      exact C.held i ((others i hij).1.mp hi)
  · by_cases hij : i = j
    · subst hij
      rw [Function.update_self]
      exact self (.inr hi)
    · rw [Function.update_of_ne hij]
      exact C.released i ((others i hij).2.mp hi)

/-- A job changes. The gate knows it then only if it has no slot of its own. -/
theorem keep (C : g.Coherent f)
    (slotless : j ∈ g.held ∨ j ∈ g.released → ∃ n, m' = some n ∧ n.binding.runReserved = false) :
    g.Coherent (Function.update f j m') :=
  C.update C.nodup (fun _ _ => ⟨.rfl, .rfl⟩) (fun h => (C.held j h).1) slotless

/-- A job that the gate does not know is held. -/
theorem hold {m' : Member} (C : g.Coherent f) (held : j ∉ g.held) (released : j ∉ g.released)
    (hr : m'.binding.runReserved = false) :
    Gate.Coherent { g with held := g.held ++ [j] } (Function.update f j (some m')) := by
  refine C.update ?_ (fun i hij => ⟨by simp [hij], .rfl⟩) (fun _ => released)
    (fun _ => ⟨m', rfl, hr⟩)
  rw [← List.concat_eq_append]
  exact C.nodup.concat held

/-- A job frees its slot, and has none of its own any more. -/
theorem freeSlot {m' : Member} {r : Bool} (C : g.Coherent f) (hr : m'.binding.runReserved = false) :
    (g.freeSlot j r).Coherent (Function.update f j (some m')) := by
  refine C.update C.nodup (fun i hij => ⟨.rfl, ?_⟩) (fun _ h => ?_) (fun _ => ⟨m', rfl, hr⟩)
  · simp [Gate.mem_released_freeSlot, hij]
  · exact (Gate.mem_released_freeSlot.mp h).1 rfl

/-- A job leaves the gate. -/
theorem withdraw {r : Bool} (C : g.Coherent f) :
    (g.withdraw j r).2.Coherent (Function.update f j none) := by
  refine C.update (C.nodup.filter _) (fun i hij => ⟨?_, ?_⟩) (fun h => ?_) (fun h => ?_)
  · simp [Gate.mem_held_withdraw, hij]
  · simp [Gate.mem_released_withdraw, hij]
  · exact absurd rfl (Gate.mem_held_withdraw.mp h).1
  · rcases h with h | h
    · exact absurd rfl (Gate.mem_held_withdraw.mp h).1
    · exact absurd rfl (Gate.mem_released_withdraw.mp h).1

/-- The next held job is released. -/
theorem releaseNext {a a' : Account} {n : JobId} (C : a.usage.gate.Coherent f)
    (h : a.releaseNext = (some n, a')) : a'.usage.gate.Coherent f := by
  obtain ⟨gate, released, rfl⟩ := Account.releaseNext_eq h
  have orderly := C.orderly.releaseNext released
  obtain ⟨rest, hh, -, rfl⟩ := Gate.releaseNext_some released
  refine ⟨orderly.once, fun i hi => ⟨orderly.apart i hi, ?_⟩, fun i hi => ?_⟩
  · exact (C.held i (hh ▸ List.mem_cons_of_mem n hi)).2
  · rcases Gate.mem_insert.mp hi with rfl | hi
    · exact (C.held i (by simp [hh])).2
    · exact C.released i hi

/-- The next held job is not released yet. -/
theorem notMem_released_of_releaseNext {a a' : Account} {n : JobId}
    (C : a.usage.gate.Coherent f) (h : a.releaseNext = (some n, a')) :
    n ∉ a.usage.gate.released := by
  obtain ⟨rest, hh, -, -⟩ := Account.releaseNext_some h
  exact (C.held n (by simp [hh])).1

end Gate.Coherent

/-- What the account knows of its jobs agrees with what the jobs `f` know of themselves. -/
structure Usage.Books (u : Usage) (f : JobId → Option Member) : Prop where
  nodup : u.gate.held.Nodup
  held : ∀ j ∈ u.gate.held, ∃ m, f j = some m
  released : ∀ j ∈ u.gate.released, ∃ m, f j = some m
  fits : ∀ j m, f j = some m → m.Fits u.gate j

namespace Usage.Books

variable {u u' : Usage} {f : JobId → Option Member} {j : JobId}

theorem coherent (B : u.Books f) : u.gate.Coherent f where
  nodup := B.nodup
  held j hj := by
    obtain ⟨m, hm⟩ := B.held j hj
    obtain ⟨slotless, released⟩ := (B.fits j m hm).held hj
    exact ⟨released, m, hm, slotless.1⟩
  released j hj := by
    obtain ⟨m, hm⟩ := B.released j hj
    exact ⟨m, hm, ((B.fits j m hm).released hj).1⟩

/-- The books of an account without jobs. -/
theorem initial (hf : ∀ i, f i = none) : Usage.Books {} f :=
  ⟨.nil, by simp, by simp, by simp [hf]⟩

/-- One job and its account change together, and the gate at no other job's place. -/
theorem update (B : u.Books f) {m' : Option Member}
    (gate : u'.gate.Coherent (Function.update f j m'))
    (others : ∀ i, i ≠ j → u.gate.AgreeOn u'.gate i)
    (self : ∀ m, m' = some m → m.Fits u'.gate j) :
    u'.Books (Function.update f j m') := by
  refine ⟨gate.nodup, fun i hi => ?_, fun i hi => ?_, fun i m hm => ?_⟩
  · exact (gate.held i hi).2.imp fun _ h => h.1
  · exact (gate.released i hi).imp fun _ h => h.1
  · by_cases hij : i = j
    · subst hij
      rw [Function.update_self] at hm
      exact self m hm
    · rw [Function.update_of_ne hij] at hm
      exact (B.fits i m hm).of_agree (others i hij)

/-- The books are right still if the gate holds and released the same jobs. -/
theorem of_same (B : u.Books f) (held : u'.gate.held = u.gate.held)
    (released : u'.gate.released = u.gate.released) : u'.Books f where
  nodup := held ▸ B.nodup
  held := by
    rw [held]
    exact B.held
  released := by
    rw [released]
    exact B.released
  fits j m hm := by
    refine (B.fits j m hm).of_agree ⟨?_, ?_⟩
    · rw [held]
    · rw [released]

/-! ### Jobs outside the gate -/

/-- The gate does not know the job. -/
structure Outside (u : Usage) (j : JobId) : Prop where
  held : j ∉ u.gate.held
  released : j ∉ u.gate.released

theorem outside_of_none (B : u.Books f) (hf : f j = none) : Outside u j where
  held := (B.coherent.notMem_of_none hf).1
  released := (B.coherent.notMem_of_none hf).2

theorem outside_of_early (B : u.Books f) {m : Member} (hf : f j = some m)
    (hp : m.phase = .fresh ∨ m.phase = .stopped) : Outside u j where
  held := ((B.fits j m hf).early hp).2.1
  released := ((B.fits j m hf).early hp).2.2

/-- A job outside the gate changes, and stays outside. -/
theorem reseat (B : u.Books f) (ho : Outside u j) {m' : Option Member}
    (gate : u'.gate = u.gate)
    (slotless : ∀ m, m' = some m → m.Slotless ∧ m.phase ≠ .running ∧ m.marked = false) :
    u'.Books (Function.update f j m') := by
  refine B.update ?_ ?_ ?_
  · rw [gate]
    exact B.coherent.keep fun known => absurd known (not_or.mpr ⟨ho.held, ho.released⟩)
  · intro i _
    rw [gate]
    exact ⟨.rfl, .rfl⟩
  · intro m hm
    obtain ⟨hs, hp, hmark⟩ := slotless m hm
    rw [gate]
    exact ⟨fun h => absurd h ho.held, fun h => absurd h ho.released,
      fun _ => ⟨hs, ho.held, ho.released⟩, by simp [hs.2, hp], fun h => absurd h hp,
      Member.unmarked_iff hmark ho.held ho.released⟩

/-- A job outside the gate is let through. -/
theorem reserve (B : u.Books f) (ho : Outside u j) {m' : Member}
    (held : u'.gate.held = u.gate.held) (released : u'.gate.released = u.gate.released)
    (hc : m'.binding.countedRunning = false) (hm : m'.marked = false)
    (hp : m'.phase = .waiting ∨ m'.phase = .ready) :
    u'.Books (Function.update f j (some m')) := by
  refine B.update ?_ ?_ ?_
  · refine (B.coherent.of_same held released).keep fun known => absurd known ?_
    rw [held, released]
    exact not_or.mpr ⟨ho.held, ho.released⟩
  · intro i _
    rw [Gate.AgreeOn, held, released]
    exact ⟨.rfl, .rfl⟩
  · rintro m ⟨⟩
    have notHeld : j ∉ u'.gate.held := held ▸ ho.held
    have notReleased : j ∉ u'.gate.released := released ▸ ho.released
    exact .onWay hp hc (fun h => absurd h notHeld) (fun h => absurd h notReleased)
      (Member.unmarked_iff hm notHeld notReleased)

/-- A job outside the gate is held. -/
theorem hold (B : u.Books f) (ho : Outside u j) {m' : Member}
    (gate : u'.gate = { u.gate with held := u.gate.held ++ [j] })
    (hs : m'.Slotless) (hm : m'.marked = true) (hp : m'.phase = .waiting ∨ m'.phase = .ready) :
    u'.Books (Function.update f j (some m')) := by
  refine B.update ?_ ?_ ?_
  · rw [gate]
    exact B.coherent.hold ho.held ho.released hs.1
  · intro i hij
    rw [gate]
    exact ⟨by simp [hij], .rfl⟩
  · rintro m ⟨⟩
    rw [gate]
    exact .onWay hp hs.2 (fun _ => ⟨hs, ho.released⟩) (fun h => absurd h ho.released)
      (by simp [hm])

/-! ### Jobs where they are -/

/-- A job gets its priority, or what is known of its queue changes. Nothing of it is
counted otherwise than before. -/
theorem revise (B : u.Books f) {m m' : Member} (hm : f j = some m) (gate : u'.gate = u.gate)
    (runReserved : m'.binding.runReserved = m.binding.runReserved)
    (countedRunning : m'.binding.countedRunning = m.binding.countedRunning)
    (marked : m'.marked = m.marked)
    (phase : m'.phase = m.phase ∨ m.phase = .waiting ∧ m'.phase = .ready) :
    u'.Books (Function.update f j (some m')) := by
  have fits := B.fits j m hm
  have slotless : m'.Slotless ↔ m.Slotless := by
    rw [Member.Slotless, Member.Slotless, runReserved, countedRunning]
  refine B.update ?_ ?_ ?_
  · rw [gate]
    refine B.coherent.keep fun known => ⟨m', rfl, ?_⟩
    rw [runReserved]
    exact known.elim (fun h => (fits.held h).1.1) fun h => (fits.released h).1
  · intro i _
    rw [gate]
    exact ⟨.rfl, .rfl⟩
  · rintro m₁ ⟨⟩
    rw [gate]
    have held : j ∈ u.gate.held → m'.Slotless ∧ j ∉ u.gate.released := by
      rw [slotless]
      exact fits.held
    have released : j ∈ u.gate.released → m'.Slotless := by
      rw [slotless]
      exact fits.released
    have marked : m'.marked = true ↔ j ∈ u.gate.held ∨ j ∈ u.gate.released := by
      rw [marked]
      exact fits.marked
    rcases phase with hp | ⟨hp, hp'⟩
    · refine ⟨held, released, ?_, ?_, ?_, marked⟩
      · rw [slotless, hp]
        exact fits.early
      · rw [countedRunning, hp]
        exact fits.counted
      · rw [runReserved, hp]
        exact fits.running
    · have hc : m'.binding.countedRunning = false := by
        rw [countedRunning, ← Bool.not_eq_true, fits.counted, hp]
        simp
      exact .onWay (.inr hp') hc held released marked

/-! ### Slots given back -/

/-- A job with a priority that is not held runs. -/
theorem start {a : Account} (B : a.usage.Books f) {b : JobBinding} (hh : j ∉ a.usage.gate.held) :
    (a.start j b).usage.Books (Function.update f j
      (some ⟨.running, { b with runReserved := false, countedRunning := true }, false⟩)) := by
  refine B.update (B.coherent.freeSlot rfl) ?_ ?_
  · intro i hij
    refine ⟨.rfl, ?_⟩
    simp [Account.start, Gate.started, Gate.mem_released_freeSlot, hij]
  · rintro m ⟨⟩
    have left : j ∉ (a.start j b).usage.gate.released :=
      fun h => (Gate.mem_released_freeSlot.mp h).1 rfl
    exact ⟨fun h => absurd h hh, fun h => absurd h left, by simp, by simp, by simp,
      Member.unmarked_iff rfl hh left⟩

/-- A job leaves. -/
theorem leave {a a' : Account} (B : a.usage.Books f) {b : JobBinding} {ran freed : Bool}
    (h : a.leave j b ran = (freed, a')) : a'.usage.Books (Function.update f j none) := by
  obtain ⟨-, rfl⟩ := Account.leave_eq h
  refine B.update B.coherent.withdraw ?_ (by simp)
  intro i hij
  constructor
  · simp [Gate.mem_held_withdraw, hij]
  · simp [Gate.mem_released_withdraw, hij]

/-- The next held job is released. -/
theorem releaseNext {a a' : Account} {n : JobId} (B : a.usage.Books f)
    (h : a.releaseNext = (some n, a')) : a'.usage.Books f := by
  obtain ⟨rest, hh, -, rfl⟩ := Account.releaseNext_some h
  have nodup := B.nodup
  rw [hh, List.nodup_cons] at nodup
  obtain ⟨m, hm⟩ := B.held n (by simp [hh])
  have place := (B.fits n m hm).held (by simp [hh])
  refine ⟨nodup.2, ?_, ?_, ?_⟩
  · intro i hi
    exact B.held i (hh ▸ List.mem_cons_of_mem n hi)
  · intro i hi
    rcases Gate.mem_insert.mp hi with rfl | hi
    · exact ⟨m, hm⟩
    · exact B.released i hi
  · intro i m' hi
    by_cases hin : i = n
    · subst hin
      obtain rfl : m = m' := by simpa [hm] using hi
      have fits := B.fits i m hm
      refine ⟨fun h => absurd h nodup.1, fun _ => place.1, ?_, fits.counted, fits.running, ?_⟩
      · intro hp
        exact absurd (by simp [hh]) (fits.early hp).2.1
      · rw [fits.marked]
        simp [Account.withGate, hh]
    · refine (B.fits i m' hi).of_agree ⟨?_, ?_⟩
      · simp [Account.withGate, hh, hin]
      · exact Gate.mem_insert.trans (or_iff_right hin)

end Usage.Books

end JobAdmission

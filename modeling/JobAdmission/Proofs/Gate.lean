import JobAdmission.Engine.Throttle
import Mathlib.Data.List.Nodup
import Mathlib.Tactic.Common

/-!
# What the gate of an account does

This module says what each change of an account's gate does to the held jobs, the
released ones and the slots in use, first of the gate alone (`Gate.enter_hold`,
`Gate.releaseNext_some` and others) and then of the account. The slots in use are counted in
full there (`Usage.occupied`): the count at which the gate stops is never below a cap, so it
decides the same (`isFull_iff`). Taking a refused hold or a refused release back restores the
gate (`Gate.withdraw_of_hold`, `Gate.unrelease_of_releaseNext`), and so the account. No change
leads to a gate that holds a job twice, or one that it released (`Gate.Orderly`), unless a job
enters that the gate knows.
-/

namespace JobAdmission

/-- The slots in use: those that jobs run on, and those that are reserved. -/
def Usage.occupied (u : Usage) : ℕ := u.running.toNat + u.gate.reserved.toNat

theorem RunLimit.cap_le_maxOccupied {limit : RunLimit} {c : ℕ} (h : limit.cap = some c) :
    c ≤ Gate.maxOccupied := by
  cases limit with
  | capped slots =>
    cases h
    exact Nat.le_sub_one_of_lt slots.toNat_lt
  | unlimited => cases h
  | detached => cases h

namespace Gate

theorem mem_insert {jobs : Std.ExtTreeSet JobId} {i j : JobId} :
    i ∈ jobs.insert j ↔ i = j ∨ i ∈ jobs := by
  rw [Std.ExtTreeSet.mem_insert, Std.LawfulEqOrd.compare_eq_iff_eq, eq_comm]

theorem mem_erase {jobs : Std.ExtTreeSet JobId} {i j : JobId} :
    i ∈ jobs.erase j ↔ i ≠ j ∧ i ∈ jobs := by
  rw [Std.ExtTreeSet.mem_erase, ne_eq, Std.LawfulEqOrd.compare_eq_iff_eq, ne_comm]

theorem size_pos_of_mem {jobs : Std.ExtTreeSet JobId} {j : JobId} (h : j ∈ jobs) :
    0 < jobs.size := by
  refine Nat.pos_of_ne_zero fun h0 => ?_
  rw [← Std.ExtTreeSet.eq_empty_iff_size_eq_zero] at h0
  rw [h0] at h
  exact Std.ExtTreeSet.not_mem_empty h

theorem exists_mem_of_size_pos {jobs : Std.ExtTreeSet JobId} (h : 0 < jobs.size) :
    ∃ j, j ∈ jobs := by
  by_contra hnone
  have empty : jobs = ∅ := Std.ExtTreeSet.ext_mem fun j => by
    simpa using not_exists.mp hnone j
  simp [empty] at h

theorem contains_eq_false {jobs : Std.ExtTreeSet JobId} {j : JobId} (h : j ∉ jobs) :
    jobs.contains j = false := by
  rwa [← Std.ExtTreeSet.contains_iff_mem, Bool.not_eq_true] at h

theorem erase_of_notMem {jobs : Std.ExtTreeSet JobId} {j : JobId} (h : j ∉ jobs) :
    jobs.erase j = jobs :=
  Std.ExtTreeSet.ext_mem fun i => by
    rw [mem_erase, and_iff_right_iff_imp]
    rintro hi rfl
    exact h hi

theorem erase_insert {jobs : Std.ExtTreeSet JobId} {j : JobId} (h : j ∉ jobs) :
    (jobs.insert j).erase j = jobs :=
  Std.ExtTreeSet.ext_mem fun i => by
    rw [mem_erase, mem_insert]
    constructor
    · rintro ⟨hne, rfl | hi⟩
      · exact absurd rfl hne
      · exact hi
    · intro hi
      exact ⟨fun e => h (e ▸ hi), .inr hi⟩

theorem filter_of_notMem {jobs : List JobId} {j : JobId} (h : j ∉ jobs) :
    jobs.filter (· ≠ j) = jobs :=
  List.filter_eq_self.mpr fun _ hi => decide_eq_true (ne_of_mem_of_not_mem hi h)

variable {g g' : Gate} {i j : JobId} {r : Bool} {running : Counter} {cap : Option ℕ}

/-- A job that has no slot frees none. -/
theorem freeSlot_of_notMem (hj : j ∉ g.released) : g.freeSlot j false = g := by
  simp [freeSlot, hasSlot, erase_of_notMem hj, contains_eq_false hj]

/-- A job that frees its slot is released no more. -/
theorem mem_released_freeSlot : i ∈ (g.freeSlot j r).released ↔ i ≠ j ∧ i ∈ g.released := mem_erase

theorem mem_held_withdraw : i ∈ (g.withdraw j r).2.held ↔ i ≠ j ∧ i ∈ g.held := by
  simp [withdraw, and_comm]

theorem mem_released_withdraw : i ∈ (g.withdraw j r).2.released ↔ i ≠ j ∧ i ∈ g.released :=
  mem_erase

/-! ### Entering and leaving a gate -/

/-- A job that is let through has a slot reserved if there is a cap. -/
theorem enter_proceed (h : g.enter j running cap = (.proceed r, g')) :
    r = cap.isSome ∧ g.isFull running cap = false ∧
      g' = { g with reserved := if r then g.reserved.up else g.reserved } := by
  cases cap with
  | none =>
    cases h
    exact ⟨rfl, rfl, rfl⟩
  | some c =>
    simp only [enter] at h
    split at h
    · cases h
    · rename_i room
      cases h
      exact ⟨rfl, Bool.eq_false_iff.mpr room, rfl⟩

/-- A job is held only if no slot is left, and then it is the last one in the queue. -/
theorem enter_hold (h : g.enter j running cap = (.hold, g')) :
    g.isFull running cap = true ∧ g' = { g with held := g.held ++ [j] } := by
  cases cap with
  | none => cases h
  | some c =>
    simp only [enter] at h
    split at h
    · rename_i full
      cases h
      exact ⟨full, rfl⟩
    · cases h

/-- A job that was not at the gate leaves no trace there if it is let through and withdrawn,
unless the count of the reserved slots went round. -/
theorem withdraw_of_proceed (hh : j ∉ g.held) (hr : j ∉ g.released)
    (few : g.reserved.toNat + 1 < UInt32.size)
    (h : g.enter j running cap = (.proceed r, g')) : g'.withdraw j r = (r, g) := by
  obtain ⟨-, -, rfl⟩ := enter_proceed h
  rw [withdraw, freeSlot, hasSlot, filter_of_notMem hh, erase_of_notMem hr, contains_eq_false hr]
  cases r with
  | false => rfl
  | true => simp [Counter.down_up few]

/-- A job that was not at the gate leaves no trace there if it is held and withdrawn. -/
theorem withdraw_of_hold (hh : j ∉ g.held) (hr : j ∉ g.released)
    (h : g.enter j running cap = (.hold, g')) : g'.withdraw j false = (false, g) := by
  obtain ⟨-, rfl⟩ := enter_hold h
  have queue : (g.held ++ [j]).filter (· ≠ j) = g.held := by
    rw [List.filter_append, filter_of_notMem hh]
    simp
  rw [withdraw, freeSlot, hasSlot, queue, erase_of_notMem hr, contains_eq_false hr]
  rfl

/-! ### Releasing at a gate -/

/-- No job is released only if none is held or no slot is left. -/
theorem releaseNext_none (h : g.releaseNext running cap = (none, g')) :
    (g.held = [] ∨ g.isFull running cap = true) ∧ g' = g := by
  unfold releaseNext at h
  split at h
  · rename_i full
    cases h
    exact ⟨.inr full, rfl⟩
  · split at h
    · rename_i nothing
      cases h
      exact ⟨.inl nothing, rfl⟩
    · cases h

/-- The job that is released is the first one in the queue, and has a slot reserved. -/
theorem releaseNext_some (h : g.releaseNext running cap = (some j, g')) :
    ∃ rest, g.held = j :: rest ∧ g.isFull running cap = false ∧
      g' = { held := rest, released := g.released.insert j, reserved := g.reserved.up } := by
  unfold releaseNext at h
  split at h
  · cases h
  · rename_i room
    split at h
    · cases h
    · rename_i queue
      cases h
      exact ⟨_, queue, Bool.eq_false_iff.mpr room, rfl⟩

/-- A release that is taken back leaves no trace but that the count of the reserved slots went
up and down. -/
theorem unrelease_of_releaseNext (hj : j ∉ g.released)
    (h : g.releaseNext running cap = (some j, g')) :
    g'.unrelease j = { g with reserved := g.reserved.up.down } := by
  obtain ⟨rest, queue, -, rfl⟩ := releaseNext_some h
  simp [unrelease, erase_insert hj, ← queue]

/-! ### Gates in order -/

/-- The gate is in order. -/
structure Orderly (g : Gate) : Prop where
  /-- No job is held twice. -/
  once : g.held.Nodup
  /-- No held job is released. -/
  apart : ∀ j ∈ g.held, j ∉ g.released

theorem orderly_empty : ({} : Gate).Orderly := ⟨List.nodup_nil, by simp⟩

/-- Jobs can leave the queue, and releases can end. -/
theorem Orderly.of_sublist (h : g.Orderly) (queue : g'.held.Sublist g.held)
    (fewer : ∀ i ∈ g'.released, i ∈ g.released) : g'.Orderly where
  once := h.once.sublist queue
  apart i hi hr := h.apart i (queue.subset hi) (fewer i hr)

theorem Orderly.enter {decision : Decision} (h : g.Orderly) (hh : j ∉ g.held)
    (hr : j ∉ g.released) (entered : g.enter j running cap = (decision, g')) : g'.Orderly := by
  cases decision with
  | proceed r =>
    obtain ⟨-, -, rfl⟩ := enter_proceed entered
    exact ⟨h.once, h.apart⟩
  | hold =>
    obtain ⟨-, rfl⟩ := enter_hold entered
    constructor
    · rw [← List.concat_eq_append]
      exact h.once.concat hh
    · intro i hi
      rcases List.mem_append.mp hi with hi | hi
      · exact h.apart i hi
      · rwa [List.mem_singleton.mp hi]

theorem Orderly.started (h : g.Orderly) : (g.started j r).Orderly :=
  h.of_sublist (List.Sublist.refl _) fun _ hi => (mem_released_freeSlot.mp hi).2

theorem Orderly.withdraw (h : g.Orderly) : (g.withdraw j r).2.Orderly :=
  h.of_sublist List.filter_sublist fun _ hi => (mem_released_withdraw.mp hi).2

theorem Orderly.releaseNext {next : Option JobId} (h : g.Orderly)
    (released : g.releaseNext running cap = (next, g')) : g'.Orderly := by
  cases next with
  | none =>
    obtain ⟨-, rfl⟩ := releaseNext_none released
    exact h
  | some j =>
    obtain ⟨rest, queue, -, rfl⟩ := releaseNext_some released
    have once := h.once
    rw [queue, List.nodup_cons] at once
    refine ⟨once.2, fun i hi hin => ?_⟩
    rcases mem_insert.mp hin with rfl | hin
    · exact once.1 hi
    · exact h.apart i (queue ▸ List.mem_cons_of_mem j hi) hin

theorem Orderly.unrelease (h : g.Orderly) : (g.unrelease j).Orderly := by
  unfold Gate.unrelease
  split
  · rename_i released
    rw [Std.ExtTreeSet.contains_iff_mem] at released
    refine ⟨List.nodup_cons.mpr ⟨fun hj => h.apart j hj released, h.once⟩, fun i hi hin => ?_⟩
    obtain ⟨hne, hin⟩ := mem_erase.mp hin
    exact h.apart i ((List.mem_cons.mp hi).resolve_left hne) hin
  · exact h

end Gate

namespace Account

variable {a a' : Account} {j : JobId}

/-- No slot is left exactly if the slots in use reach the cap. -/
theorem isFull_iff :
    a.usage.gate.isFull a.usage.running a.terms.runLimit.cap = true ↔
      ∃ c, a.terms.runLimit.cap = some c ∧ c ≤ a.usage.occupied := by
  cases hc : a.terms.runLimit.cap with
  | none => simp [Gate.isFull]
  | some c =>
    have hle := RunLimit.cap_le_maxOccupied hc
    simp only [Gate.isFull, Gate.occupied, decide_eq_true_eq, Nat.le_min, hle, and_true]
    simp [Usage.occupied]

/-- A slot is left exactly if the slots in use stay below the cap. -/
theorem isFull_eq_false_iff :
    a.usage.gate.isFull a.usage.running a.terms.runLimit.cap = false ↔
      ∀ c, a.terms.runLimit.cap = some c → a.usage.occupied < c := by
  simp only [← Bool.not_eq_true, isFull_iff, not_exists, not_and, Nat.not_le]

/-! ### Entering -/

/-- The gate decides on a job by the account's running jobs and its cap. -/
theorem enterGate_eq {decision : Gate.Decision} (h : a.enterGate j = (decision, a')) :
    ∃ gate, a.usage.gate.enter j a.usage.running a.terms.runLimit.cap = (decision, gate) ∧
      a' = a.withGate gate := by
  cases h
  exact ⟨_, rfl, rfl⟩

/-- The gate's decision changes the gate only. -/
theorem eq_withGate_of_enterGate {decision : Gate.Decision} (h : a.enterGate j = (decision, a')) :
    ∃ gate, a' = a.withGate gate :=
  (enterGate_eq h).imp fun _ => And.right

/-- A job that is let through under a cap has a slot reserved. -/
theorem enterGate_proceed {r : Bool} (h : a.enterGate j = (.proceed r, a')) :
    r = a.terms.runLimit.cap.isSome ∧
      (∀ c, a.terms.runLimit.cap = some c → a.usage.occupied < c) ∧
      a' = a.withGate { a.usage.gate with
        reserved := if r then a.usage.gate.reserved.up else a.usage.gate.reserved } := by
  obtain ⟨gate, entered, rfl⟩ := enterGate_eq h
  obtain ⟨hr, room, rfl⟩ := Gate.enter_proceed entered
  exact ⟨hr, isFull_eq_false_iff.mp room, rfl⟩

/-- A job is held only if no slot is left, and then it is the last one in the queue. -/
theorem enterGate_hold (h : a.enterGate j = (.hold, a')) :
    (∃ c, a.terms.runLimit.cap = some c ∧ c ≤ a.usage.occupied) ∧
      a' = a.withGate { a.usage.gate with held := a.usage.gate.held ++ [j] } := by
  obtain ⟨gate, entered, rfl⟩ := enterGate_eq h
  obtain ⟨full, rfl⟩ := Gate.enter_hold entered
  exact ⟨isFull_iff.mp full, rfl⟩

/-- Where no slot is left, a job is held. -/
theorem enterGate_of_full {c : ℕ} (hcap : a.terms.runLimit.cap = some c)
    (full : c ≤ a.usage.occupied) : (a.enterGate j).1 = .hold := by
  cases hg : a.enterGate j with
  | mk decision a' =>
    cases decision with
    | proceed r =>
      obtain ⟨-, room, -⟩ := enterGate_proceed hg
      have := room c hcap
      omega
    | hold => rfl

/-- A job that is not at the gate and cannot be held leaves no trace there. -/
theorem unhold_of_enterGate (hh : j ∉ a.usage.gate.held) (hr : j ∉ a.usage.gate.released)
    (h : a.enterGate j = (.hold, a')) : a'.unhold j = a := by
  obtain ⟨gate, entered, rfl⟩ := enterGate_eq h
  calc (a.withGate gate).unhold j
    _ = a.withGate (gate.withdraw j false).2 := rfl
    _ = a := by
      rw [Gate.withdraw_of_hold hh hr entered]
      rfl

/-! ### Leaving -/

/-- A job that leaves gives back what is counted of it, and a slot became free if one was
reserved for it or it ran. -/
theorem leave_eq {b : JobBinding} {ran freed : Bool} (h : a.leave j b ran = (freed, a')) :
    freed = (a.usage.gate.hasSlot j b.runReserved || ran) ∧
      a' = { a with usage := { a.usage with
        active := if b.countedActive then a.usage.active.down else a.usage.active
        running := if ran && b.countedRunning then a.usage.running.down else a.usage.running
        gate := (a.usage.gate.withdraw j b.runReserved).2 } } := by
  cases h
  exact ⟨rfl, rfl⟩

/-! ### Releasing -/

/-- The gate releases a job by the account's running jobs and its cap. -/
theorem releaseNext_eq {next : Option JobId} (h : a.releaseNext = (next, a')) :
    ∃ gate, a.usage.gate.releaseNext a.usage.running a.terms.runLimit.cap = (next, gate) ∧
      a' = a.withGate gate := by
  cases h
  exact ⟨_, rfl, rfl⟩

/-- No job is released only if none is held or no slot is left. -/
theorem releaseNext_none (h : a.releaseNext = (none, a')) :
    (a.usage.gate.held = [] ∨ ∃ c, a.terms.runLimit.cap = some c ∧ c ≤ a.usage.occupied) ∧
      a' = a := by
  obtain ⟨gate, released, rfl⟩ := releaseNext_eq h
  obtain ⟨cause, rfl⟩ := Gate.releaseNext_none released
  exact ⟨cause.imp_right isFull_iff.mp, rfl⟩

/-- The job that is released is the first one in the queue, and has a slot reserved. -/
theorem releaseNext_some {n : JobId} (h : a.releaseNext = (some n, a')) :
    ∃ rest, a.usage.gate.held = n :: rest ∧
      (∀ c, a.terms.runLimit.cap = some c → a.usage.occupied < c) ∧
      a' = a.withGate
        { held := rest, released := a.usage.gate.released.insert n
          reserved := a.usage.gate.reserved.up } := by
  obtain ⟨gate, released, rfl⟩ := releaseNext_eq h
  obtain ⟨rest, queue, room, rfl⟩ := Gate.releaseNext_some released
  exact ⟨rest, queue, isFull_eq_false_iff.mp room, rfl⟩

/-- The account after the release of a job that was taken back: the count of the reserved slots
went up and down. -/
def unreleased (a : Account) : Account :=
  a.withGate { a.usage.gate with reserved := a.usage.gate.reserved.up.down }

/-- The count comes back to where it was, unless it went round. -/
theorem unreleased_eq (few : a.usage.gate.reserved.toNat + 1 < UInt32.size) : a.unreleased = a := by
  rw [unreleased, Counter.down_up few]
  rfl

/-- A release that is taken back leaves no other trace. -/
theorem unrelease_of_releaseNext {n : JobId} (hn : n ∉ a.usage.gate.released)
    (h : a.releaseNext = (some n, a')) : a'.unrelease n = a.unreleased := by
  obtain ⟨gate, released, rfl⟩ := releaseNext_eq h
  calc (a.withGate gate).unrelease n
    _ = a.withGate (gate.unrelease n) := rfl
    _ = a.unreleased := by
      rw [Gate.unrelease_of_releaseNext hn released]
      rfl

end Account

end JobAdmission

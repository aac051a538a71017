import JobAdmission.Proofs.Gate
import JobAdmission.Proofs.Run

/-!
# What a gate does can be taken back

This module proves that the gate of an account takes back exactly what it did for a job
(`Gate.taken_back`). A released job becomes the oldest held one again, a job that was held or that
got a slot is withdrawn, and after that the gate is the one that it was before: the same jobs wait
in the same order, the same ones are released, and as many slots are reserved. The steps of the
engine rely on this wherever the scheduler refuses what the gate decided.

Withdrawing a job takes it out of the queue wherever it stands there, and ends its release too. So
this holds at a gate that is in order (`Gate.Orderly`) and of jobs that the gate does not know. Each
use of a gate keeps it in order as long as only such jobs enter (`Gate.Orderly.after`), and so any
number of uses does (`Gate.Orderly.afterAll`). A gate that has as many slots reserved as its counter
can tell is left out: one more would make the counter go round.
-/

namespace JobAdmission.Gate

/-! ### Uses of a gate -/

/-- What a gate is used for. -/
inductive Use where
  /-- A job asks for a slot, beside so many running jobs and under a cap. -/
  | enter (job : JobId) (running : Counter) (cap : Option ℕ)
  /-- A job runs. -/
  | started (job : JobId) (reservedByJob : Bool)
  /-- A job leaves. -/
  | withdraw (job : JobId) (reservedByJob : Bool)
  /-- The oldest held job is to be released. -/
  | releaseNext (running : Counter) (cap : Option ℕ)
  /-- The release of a job is taken back. -/
  | unrelease (job : JobId)

/-- The gate after a use. -/
def after (g : Gate) : Use → Gate
  | .enter job running cap => (g.enter job running cap).2
  | .started job reservedByJob => g.started job reservedByJob
  | .withdraw job reservedByJob => (g.withdraw job reservedByJob).2
  | .releaseNext running cap => (g.releaseNext running cap).2
  | .unrelease job => g.unrelease job

/-- The gate after uses, one by one. -/
def afterAll (g : Gate) (uses : List Use) : Gate := uses.foldl after g

/-- A job that enters is one that the gate does not know. -/
def Allows (g : Gate) : Use → Prop
  | .enter job _ _ => job ∉ g.held ∧ job ∉ g.released
  | _ => True

instance (g : Gate) : DecidablePred g.Allows
  | .enter job _ _ => inferInstanceAs (Decidable (job ∉ g.held ∧ job ∉ g.released))
  | .started .. | .withdraw .. | .releaseNext .. | .unrelease .. => inferInstanceAs (Decidable True)

variable {g : Gate} {j : JobId} {r : Bool} {use : Use}

/-- Every use keeps a gate in order if no job enters that the gate knows. -/
theorem Orderly.after (h : g.Orderly) (allowed : g.Allows use) : (g.after use).Orderly := by
  cases use with
  | enter job running cap => exact h.enter allowed.1 allowed.2 rfl
  | started job reservedByJob => exact h.started
  | withdraw job reservedByJob => exact h.withdraw
  | releaseNext running cap => exact h.releaseNext rfl
  | unrelease job => exact h.unrelease

/-- Any number of uses keeps a gate in order if no job enters that the gate knows then. -/
theorem Orderly.afterAll (h : g.Orderly) {uses : List Use}
    (allowed : Run.Obeys Gate.after Allows g uses) : (g.afterAll uses).Orderly :=
  allowed.invariant (fun _ _ h allowed => h.after allowed) h

/-! ### Reserved slots -/

theorem reserved_freeSlot_le : (g.freeSlot j r).reserved.toNat ≤ g.reserved.toNat := by
  rw [freeSlot]
  split
  · simp
  · exact Nat.le_refl _

/-- No use reserves more than one slot. -/
theorem reserved_after_le (g : Gate) (use : Use) :
    (g.after use).reserved.toNat ≤ g.reserved.toNat + 1 := by
  cases use with
  | enter job running cap =>
    rcases entered : g.enter job running cap with ⟨r | -, g'⟩
    · obtain ⟨-, -, rfl⟩ := enter_proceed entered
      rw [after, entered]
      cases r with
      | false => exact Nat.le_succ _
      | true => exact Counter.toNat_up_le _
    · obtain ⟨-, rfl⟩ := enter_hold entered
      rw [after, entered]
      exact Nat.le_succ _
  | started | withdraw => exact Nat.le_succ_of_le reserved_freeSlot_le
  | releaseNext running cap =>
    rcases released : g.releaseNext running cap with ⟨- | j, g'⟩
    · obtain ⟨-, rfl⟩ := releaseNext_none released
      simp [after, released]
    · obtain ⟨rest, -, -, rfl⟩ := releaseNext_some released
      simp [after, released, Counter.toNat_up_le]
  | unrelease job =>
    rw [after, unrelease]
    split
    · simp only [Counter.toNat_down]
      omega
    · exact Nat.le_succ _

/-! ### Taking back -/

/-- At a gate in order, taking a release back and withdrawing a job that just entered restore the
gate exactly, where the job was not known before it entered. Withdrawing tells whether a slot was
given back. Every use keeps the gate in order if no job enters that the gate knows, and reserves at
most one slot more. -/
theorem taken_back (orderly : g.Orderly) (few : g.reserved.toNat < maxOccupied) :
    (∀ running cap j g', g.releaseNext running cap = (some j, g') →
      (g.held = j :: g'.held ∧ j ∈ g'.released ∧ g'.reserved.toNat = g.reserved.toNat + 1) ∧
        g'.unrelease j = g) ∧
    (∀ running cap j g', j ∉ g.held → j ∉ g.released →
      g.enter j running cap = (.hold, g') →
        g'.held = g.held ++ [j] ∧ g'.withdraw j false = (false, g)) ∧
    (∀ running cap j g', j ∉ g.held → j ∉ g.released →
      g.enter j running cap = (.proceed true, g') →
        g'.reserved.toNat = g.reserved.toNat + 1 ∧ g'.withdraw j true = (true, g)) ∧
    ∀ use, (g.Allows use → (g.after use).Orderly) ∧
      (g.after use).reserved.toNat ≤ g.reserved.toNat + 1 := by
  have below : g.reserved.toNat + 1 < UInt32.size := Nat.add_lt_of_lt_sub few
  refine ⟨fun running cap j g' released => ?_, fun running cap j g' hh hr entered => ?_,
    fun running cap j g' hh hr entered => ?_,
    fun use => ⟨orderly.after, g.reserved_after_le use⟩⟩
  · obtain ⟨rest, queue, -, same⟩ := releaseNext_some released
    have first : j ∉ g.released := orderly.apart j (queue ▸ List.mem_cons_self)
    rw [unrelease_of_releaseNext first released, Counter.down_up below, same]
    exact ⟨⟨queue, mem_insert.mpr (.inl rfl), Counter.toNat_up below⟩, rfl⟩
  · obtain ⟨-, same⟩ := enter_hold entered
    exact ⟨by rw [same], withdraw_of_hold hh hr entered⟩
  · obtain ⟨-, -, same⟩ := enter_proceed entered
    refine ⟨?_, withdraw_of_proceed hh hr below entered⟩
    rw [same]
    exact Counter.toNat_up below

namespace Sample

/-- Under a cap of one slot, a job enters and three others are held behind it. It runs, and when it
is no longer there the first of them is released. -/
def uses : List Use :=
  [.enter 6 0 (some 1), .enter 7 0 (some 1), .enter 8 0 (some 1), .enter 9 0 (some 1),
   .started 6 true, .releaseNext 0 (some 1)]

/-- Two jobs are held, and one is released. -/
def gate : Gate := afterAll {} uses

end Sample

theorem sample_taken_back :
    Sample.gate.Orderly ∧ Sample.gate.reserved.toNat < maxOccupied ∧
      (Sample.gate.held, Sample.gate.reserved) = ([8, 9], 1) ∧ 7 ∈ Sample.gate.released ∧
      (10 ∉ Sample.gate.held ∧ 10 ∉ Sample.gate.released) ∧
      (∃ g', Sample.gate.releaseNext 0 (some 2) = (some 8, g') ∧ g'.held = [9] ∧
        g'.unrelease 8 = Sample.gate) ∧
      (∃ g', Sample.gate.enter 10 1 (some 2) = (.hold, g') ∧ g'.held = [8, 9, 10] ∧
        g'.withdraw 10 false = (false, Sample.gate)) ∧
      (∃ g', Sample.gate.enter 10 0 (some 2) = (.proceed true, g') ∧ g'.reserved = 2 ∧
        g'.withdraw 10 true = (true, Sample.gate)) ∧
      (Sample.gate.after (.enter 10 1 (some 2))).Orderly := by
  have allowed : Run.Obeys Gate.after Allows {} Sample.uses := by decide +kernel
  have orderly : Sample.gate.Orderly := orderly_empty.afterAll allowed
  have few : Sample.gate.reserved.toNat < maxOccupied := by decide +kernel
  have unknown : 10 ∉ Sample.gate.held ∧ 10 ∉ Sample.gate.released := by decide +kernel
  obtain ⟨release, hold, proceed, keep⟩ := taken_back orderly few
  have released : Sample.gate.releaseNext 0 (some 2) = (some 8, _) :=
    Prod.ext (by decide +kernel) rfl
  have held : Sample.gate.enter 10 1 (some 2) = (.hold, _) := Prod.ext (by decide +kernel) rfl
  have entered : Sample.gate.enter 10 0 (some 2) = (.proceed true, _) :=
    Prod.ext (by decide +kernel) rfl
  exact ⟨orderly, few, by decide +kernel, by decide +kernel, unknown,
    ⟨_, released, by decide +kernel, (release _ _ _ _ released).2⟩,
    ⟨_, held, by decide +kernel, (hold _ _ _ _ unknown.1 unknown.2 held).2⟩,
    ⟨_, entered, by decide +kernel, (proceed _ _ _ _ unknown.1 unknown.2 entered).2⟩,
    (keep (.enter 10 1 (some 2))).1 unknown⟩

end JobAdmission.Gate

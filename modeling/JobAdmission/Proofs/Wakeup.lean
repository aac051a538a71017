import JobAdmission.Proofs.AccountRows
import JobAdmission.Proofs.Counters
import JobAdmission.Proofs.Slots

/-!
# No lost wake-up

This module proves that held jobs are not forgotten: while the scheduler never refuses to
release a job, an account where jobs are held has a live job whose leaving frees a slot
(`World.Reached.no_lost_wakeup`), whatever the feed does to its cap meanwhile. It rests
on the feed never granting a cap of no slots at all (`AccountRecord.cap_pos`), and on the
counters of the account being exact (`World.LightOrder`): a counter that went round to zero
would tell of no slot where all of them are in use.
-/

namespace JobAdmission

/-! ### Caps of the feed -/

/-- A positive number stays positive where it stops at 32 bits. -/
theorem RunLimit.stopped_pos {number : Int64} (h : 0 < number) :
    0 < (UInt32.ofNat (min number.toInt.toNat maxSlots)).toNat := by
  have pos : 0 < number.toInt := Int64.lt_iff_toInt_lt.mp h
  have small : min number.toInt.toNat maxSlots < UInt32.size :=
    (Nat.min_le_right _ _).trans_lt (Nat.sub_lt (by decide) Nat.one_pos)
  rw [UInt32.toNat_ofNat_of_lt' small]
  exact Nat.lt_min.mpr ⟨by omega, by decide⟩

/-- A cap leaves at least one slot. -/
theorem RunLimit.cap_pos_of_ofNumber? {number : Int64} {limit : RunLimit} {c : ℕ}
    (h : RunLimit.ofNumber? number = some limit) (hc : limit.cap = some c) : 0 < c := by
  unfold ofNumber? at h
  split at h
  · cases h
    cases hc
  · split at h
    · cases h
      cases hc
    · split at h
      · rename_i hpos
        cases h
        cases hc
        exact stopped_pos hpos
      · cases h

theorem AccountRecord.cap_pos {row : Json} {u : AccountUpdate} {c : ℕ}
    (h : AccountRecord.readUpdate row = .ok u) (hc : u.terms.runLimit.cap = some c) : 0 < c := by
  obtain ⟨r, hr⟩ := exists_of_readUpdate h
  exact RunLimit.cap_pos_of_ofNumber? (grants_of_toUpdate hr).2.2.runLimit hc

/-- No event grants an account a cap of no slots. -/
theorem Event.granted_cap_pos {H : Type} (k : AccountKey) (ev : Event H) {t : Terms}
    (ht : t ∈ ev.granted k) {c : ℕ} (hc : t.runLimit.cap = some c) : 0 < c := by
  unfold granted at ht
  split at ht
  · obtain ⟨u, hu, rfl⟩ := List.mem_map.mp ht
    obtain ⟨row, -, hrow⟩ := mem_accepted.mp (List.mem_filter.mp hu).1
    exact AccountRecord.cap_pos hrow hc
  · cases ht

/-! ### Runs -/

namespace World

variable {H : Type} [Scheduler H] {w : World H} {k : AccountKey} {n : ℕ}

/-- An event keeps an account busy whose counters are exact, if it is told no cap that is too small
and the scheduler does not refuse to release a job. -/
theorem Sound.busy_after {ev : Event H} (hs : w.Sound) (h : w.ReleasingOrder ev)
    (floor : ∀ t ∈ ev.granted k, ∀ c, t.runLimit.cap = some c → n ≤ c)
    (C : (w.scene k).SlotsCounted) (hb : (w.scene k).Busy n) : ((w.after ev).scene k).Busy n := by
  obtain ⟨rs, step⟩ := hs.scene_step h.1 k
  rw [h.2] at step
  exact step.busy (hs.scenes k) floor C hb

/-- The job is live and bound to the account of the key, where it is not held, and when it
leaves, the engine goes on to release the next of the jobs that are held there. -/
def WakesAt (w : World H) (k : AccountKey) (a : Account) (j : JobId) : Prop :=
  j ∉ a.usage.gate.held ∧ ∃ l b, w.live j = some l ∧ l.storage.binding = some b ∧
    b.account.key = k ∧ ∀ job, job.id = j → w.Due .inactive job l →
      ∃ a', a'.usage.gate.held = a.usage.gate.held ∧
        w.engine.inactive job l.storage = w.engine.release job { l.storage with binding := none } a'

/-- Where a slot is in use, a job has it, and its leaving wakes the next held job. -/
theorem Sound.exists_wakes {a : Account} (hs : w.Sound) (ha : w.account k = some a)
    (pos : 0 < a.usage.taken w.arrived (w.scene k).member) : ∃ j, w.WakesAt k a j := by
  obtain ⟨j, m, hm, hj, slot⟩ := ((hs.scenes k).books a ha).exists_occupant pos
  obtain ⟨l, b, hl, hb, rfl, rfl⟩ := member_eq_some.mp hm
  refine ⟨j, hj, l, b, hl, hb, rfl, ?_⟩
  rintro job rfl due
  have bound := hs.boundAccount hl hb ha
  cases hleave : a.leave job.id b job.allocObserved with
  | mk freed a' =>
    obtain ⟨hfreed, ha'⟩ := Account.leave_eq hleave
    have freed_true : freed = true := by
      rw [hfreed, Bool.or_eq_true, due.alloc rfl]
      exact slot
    subst freed_true
    refine ⟨a', ?_, by simp only [Engine.inactive, bound, hleave]⟩
    rw [ha']
    refine List.filter_eq_self.mpr fun i hi => decide_eq_true ?_
    rintro rfl
    exact hj hi

/-- While the scheduler never refuses to release a job, and the counters of the account can tell
the number of its jobs: where jobs are held, a slot is in use, and there is a job whose leaving
wakes the next one. -/
theorem Reached.no_lost_wakeup {a : Account} (h : w.Reached (LightOrder k ReleasingOrder))
    (ha : w.account k = some a) (held : a.usage.gate.held ≠ []) :
    1 ≤ a.usage.running.toNat + a.usage.gate.reserved.toNat ∧ ∃ j, w.WakesAt k a j := by
  have inv : w.Sound ∧ (w.scene k).Counted ∧ (w.scene k).Busy 1 := by
    refine h.invariant (I := fun w => w.Sound ∧ (w.scene k).Counted ∧ (w.scene k).Busy 1) ?_ ?_
    · intro config host audit
      refine ⟨start_sound config host audit, start_counted config host audit, fun a ha => ?_⟩
      cases (account_start config host audit k).symm.trans ha
    · rintro w ev ⟨hs, C, busy⟩ ⟨order, few⟩
      exact ⟨hs.after order.1, hs.counted_after C order.1 few,
        hs.busy_after order (fun t ht c hc => ev.granted_cap_pos k ht hc) C.slotsCounted busy⟩
  obtain ⟨hs, C, busy⟩ := inv
  have pos := (busy a ha).busy held
  exact ⟨((C a ha).occupied ▸ pos : 1 ≤ a.usage.occupied), hs.exists_wakes ha pos⟩

/-- In the sample, the job that runs wakes the one that is held. -/
theorem sample_wakes :
    (Sample.start.afterAll Sample.events).Reached (LightOrder Sample.key ReleasingOrder) ∧
    ∃ a, (Sample.start.afterAll Sample.events).account Sample.key = some a ∧
      a.usage.gate.held = [8] ∧ 1 ≤ a.usage.running.toNat + a.usage.gate.reserved.toNat ∧
      ∃ j, (Sample.start.afterAll Sample.events).WakesAt Sample.key a j := by
  have seen : ((Sample.start.afterAll Sample.events).account Sample.key).map
      (fun a => a.usage.gate.held) = some [8] := by
    decide +kernel
  obtain ⟨a, ha, hseen⟩ := Option.map_eq_some_iff.mp seen
  exact ⟨Sample.light, a, ha, hseen, Sample.light.no_lost_wakeup ha (by simp [hseen])⟩

end World

end JobAdmission

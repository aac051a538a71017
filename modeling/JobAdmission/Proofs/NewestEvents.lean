import JobAdmission.Proofs.Reports
import Mathlib.Data.List.DropRight

/-!
# A trail keeps the newest events

This module proves what an audit trail of some capacity holds after any events: the newest ones,
as many as the capacity says, in the order in which they were kept (`AuditTrail.keeps_newest`). A
trail of capacity 0 still keeps one event, since a full trail makes room before an event is kept
and not after that. The invariant is that the trail holds the last events of all those so far
(`AuditTrail.events_record`).
-/

namespace JobAdmission.AuditTrail

/-! ### The last elements of a list -/

section

variable {α : Type} {l : List α} {n : Nat}

theorem length_rtake (l : List α) (n : Nat) : (l.rtake n).length = min n l.length := by
  rw [List.rtake, List.length_drop]
  omega

theorem rtake_of_length_le (h : l.length ≤ n) : l.rtake n = l := by
  rw [List.rtake, Nat.sub_eq_zero_of_le h, List.drop_zero]

/-- Of the last elements, the first one is the oldest. -/
theorem tail_rtake_succ (h : n < l.length) : (l.rtake (n + 1)).tail = l.rtake n := by
  have later : l.length - (n + 1) + 1 = l.length - n := by omega
  rw [List.rtake, List.rtake, List.tail_drop, later]

end

/-! ### Events -/

variable {t : AuditTrail} {c : Nat}

/-- No event makes a trail shorter: a full one drops one event, and each keeps one. -/
theorem length_record (t : AuditTrail) (ev : AuditEvent) :
    t.events.length ≤ (t.record ev).events.length := by
  rw [record]
  split
  · rw [List.length_append, List.length_tail, List.length_singleton]
    omega
  · exact (List.sublist_append_left _ _).length_le

theorem length_recordAll (t : AuditTrail) (evs : List AuditEvent) :
    t.events.length ≤ (t.recordAll evs).events.length := by
  induction evs generalizing t with
  | nil => exact le_rfl
  | cons ev evs ih => exact (t.length_record ev).trans (ih (t.record ev))

/-- A trail that holds the newest events holds them after one more. -/
theorem events_record {evs : List AuditEvent} (hc : t.capacity = some c)
    (ht : t.events = evs.rtake (max c 1)) (ev : AuditEvent) :
    (t.record ev).events = (evs ++ [ev]).rtake (max c 1) := by
  -- at least the new event is kept, and as many of the others as there is room for beside it
  obtain ⟨n, hn⟩ : ∃ n, max c 1 = n + 1 := ⟨max c 1 - 1, by omega⟩
  rw [hn] at ht ⊢
  have full : t.isFull = true ↔ c ≤ min (n + 1) evs.length := by
    rw [isFull, hc, ht, length_rtake, decide_eq_true_iff]
  rw [List.rtake_concat_succ, record]
  by_cases room : evs.length ≤ n
  · -- all events are held so far
    have all : t.events = evs := by rw [ht, rtake_of_length_le (by omega)]
    rw [all, rtake_of_length_le room]
    split
    · rename_i hfull
      have nothing : evs.length = 0 := by
        have := full.mp hfull
        omega
      rw [List.length_eq_zero_iff.mp nothing, List.tail_nil]
    · rfl
  · rw [if_pos (full.mpr (by omega)), ht, tail_rtake_succ (by omega)]

theorem events_recordAll {evs : List AuditEvent} (hc : t.capacity = some c)
    (ht : t.events = evs.rtake (max c 1)) (evs' : List AuditEvent) :
    (t.recordAll evs').events = (evs ++ evs').rtake (max c 1) := by
  induction evs' generalizing t evs with
  | nil => rw [List.append_nil, ← ht, recordAll, List.foldl_nil]
  | cons ev evs' ih =>
    have later := ih (t := t.record ev) hc (events_record hc ht ev)
    rwa [List.append_assoc, List.singleton_append] at later

/-- A new trail of some capacity holds the last of the events that it is given, in order: as many
as the capacity says, and at least one; all of them if there are fewer. So it is never longer than
that, and more events never make it shorter. -/
theorem keeps_newest (c : Nat) (evs : List AuditEvent) :
    (recordAll { capacity := some c } evs).events = evs.rtake (max c 1) ∧
      (recordAll { capacity := some c } evs).events.length ≤ max c 1 ∧
      ∀ later, (recordAll { capacity := some c } evs).events.length ≤
        (recordAll { capacity := some c } (evs ++ later)).events.length := by
  have held : (recordAll { capacity := some c } evs).events = evs.rtake (max c 1) :=
    events_recordAll (t := { capacity := some c }) rfl (List.rtake_nil _).symm evs
  refine ⟨held, ?_, fun later => ?_⟩
  · rw [held, length_rtake]
    exact min_le_left _ _
  · rw [recordAll_append]
    exact length_recordAll _ later

end JobAdmission.AuditTrail

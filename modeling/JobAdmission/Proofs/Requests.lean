import JobAdmission.Host
import Mathlib.Tactic.Common

/-!
# Requests

This module says what becomes of requests that are made of a scheduler in order until one
is refused (`Scheduler.serve`): which of them are accepted (`Scheduler.accepted`), and how
that moves the scheduler (`Scheduler.Accepts`). Any scheduler can keep a record of what it
accepted (`Recorded`), and the host carries a dependency after them if one of them adds it,
or if it did before and none removes it (`Host.hasDependency_of_accepts`).
-/

namespace JobAdmission

namespace HostRequest

/-- The job that a request makes wait, or wait no longer. -/
def waiting? : HostRequest → Option JobId
  | .addDependency job _ => some job
  | .removeDependency job _ => some job
  | _ => none

/-- The job that a request makes wait. -/
def added? : HostRequest → Option JobId
  | .addDependency job _ => some job
  | _ => none

/-- The job that a request makes wait no longer. -/
def removed? : HostRequest → Option JobId
  | .removeDependency job _ => some job
  | _ => none

/-- The bank that a request writes, and the job that it is written for. -/
def bank? : HostRequest → Option (JobId × String)
  | .updateJobspec job (.bank name) => some (job, name)
  | _ => none

/-- The banks that requests write, in order. -/
def banks (rs : List HostRequest) : List (JobId × String) := rs.filterMap bank?

/-- The jobs that requests make wait, in order. -/
def heldJobs (rs : List HostRequest) : List JobId := rs.filterMap added?

/-- The jobs that requests make wait no longer, in order. -/
def releasedJobs (rs : List HostRequest) : List JobId := rs.filterMap removed?

variable {j : JobId} {label : String}

theorem mem_heldJobs {rs : List HostRequest} :
    j ∈ heldJobs rs ↔ ∃ label, .addDependency j label ∈ rs := by
  rw [heldJobs, List.mem_filterMap]
  constructor
  · rintro ⟨r, hr, hj⟩
    cases r with
    | addDependency i label =>
      cases hj
      exact ⟨label, hr⟩
    | removeDependency | updateJobspec | reprioritizeAll => cases hj
  · rintro ⟨label, hr⟩
    exact ⟨_, hr, rfl⟩

theorem mem_releasedJobs {rs : List HostRequest} :
    j ∈ releasedJobs rs ↔ ∃ label, .removeDependency j label ∈ rs := by
  rw [releasedJobs, List.mem_filterMap]
  constructor
  · rintro ⟨r, hr, hj⟩
    cases r with
    | removeDependency i label =>
      cases hj
      exact ⟨label, hr⟩
    | addDependency | updateJobspec | reprioritizeAll => cases hj
  · rintro ⟨label, hr⟩
    exact ⟨_, hr, rfl⟩

theorem mem_banks {rs : List HostRequest} {name : String} :
    (j, name) ∈ banks rs ↔ .updateJobspec j (.bank name) ∈ rs := by
  rw [banks, List.mem_filterMap]
  constructor
  · rintro ⟨r, hr, hj⟩
    cases r with
    | updateJobspec i p =>
      cases p with
      | bank =>
        cases hj
        exact hr
      | project => cases hj
    | addDependency | removeDependency | reprioritizeAll => cases hj
  · intro hr
    exact ⟨_, hr, rfl⟩

theorem banks_append (rs rs' : List HostRequest) : banks (rs ++ rs') = banks rs ++ banks rs' :=
  List.filterMap_append

theorem length_heldJobs_add (rs : List HostRequest) :
    (heldJobs rs).length + (releasedJobs rs).length = (rs.filterMap waiting?).length := by
  induction rs with
  | nil => rfl
  | cons r rs ih =>
    cases r with
    | addDependency | removeDependency =>
      simp only [heldJobs, releasedJobs, List.filterMap_cons, added?, removed?, waiting?,
        List.length_cons] at ih ⊢
      omega
    | updateJobspec | reprioritizeAll => exact ih

@[simp] theorem heldJobs_nil : heldJobs [] = [] := rfl

@[simp] theorem releasedJobs_nil : releasedJobs [] = [] := rfl

@[simp] theorem heldJobs_add : heldJobs [.addDependency j label] = [j] := rfl

@[simp] theorem releasedJobs_add : releasedJobs [.addDependency j label] = [] := rfl

@[simp] theorem heldJobs_remove : heldJobs [.removeDependency j label] = [] := rfl

@[simp] theorem releasedJobs_remove : releasedJobs [.removeDependency j label] = [j] := rfl

end HostRequest

/-! ### Requests in order -/

namespace Scheduler

variable {H : Type} [Scheduler H]

/-- Makes requests in order, until one is refused. -/
def serve (h : H) : List HostRequest → Option HostError × H
  | [] => (none, h)
  | r :: rs => match request h r with
    | (some err, h) => (some err, h)
    | (none, h) => serve h rs

/-- The requests that are accepted before one is refused. -/
def accepted (h : H) : List HostRequest → List HostRequest
  | [] => []
  | r :: rs => match request h r with
    | (some _, _) => []
    | (none, h) => r :: accepted h rs

/-- The scheduler accepts these requests, in order, and may refuse one more. -/
inductive Accepts : H → List HostRequest → H → Prop where
  /-- No more requests are made. -/
  | done {h : H} : Accepts h [] h
  /-- The last request is refused. -/
  | refused {h h' : H} {r : HostRequest} {err : HostError} (hr : request h r = (some err, h')) :
    Accepts h [] h'
  /-- The first request is accepted. -/
  | next {h h₁ h' : H} {r : HostRequest} {rs : List HostRequest} (hr : request h r = (none, h₁))
    (hrs : Accepts h₁ rs h') : Accepts h (r :: rs) h'

theorem Accepts.of_eq {h h' : H} (same : h' = h) : Accepts h [] h' := same ▸ .done

theorem accepts_serve (h : H) (rs : List HostRequest) :
    Accepts h (accepted h rs) (serve h rs).2 := by
  induction rs generalizing h with
  | nil => exact .done
  | cons r rs ih =>
    rw [accepted, serve]
    rcases hr : request h r with ⟨_ | err, h₁⟩
    · exact .next hr (ih h₁)
    · exact .refused hr

/-- Requests that are made after others which were all accepted. -/
theorem Accepts.append {h h₁ h' : H} {rs rs' : List HostRequest} (hrs : serve h rs = (none, h₁))
    (ha : Accepts h₁ rs' h') : Accepts h (rs ++ rs') h' := by
  induction rs generalizing h with
  | nil =>
    cases hrs
    exact ha
  | cons r rs ih =>
    rw [serve] at hrs
    split at hrs
    · cases hrs
    · rename_i hr
      exact .next hr (ih hrs)

/-- Where no request is refused, all of them are accepted. -/
theorem accepted_of_serve {h h' : H} {rs : List HostRequest} (hs : serve h rs = (none, h')) :
    accepted h rs = rs := by
  induction rs generalizing h with
  | nil => rfl
  | cons r rs ih =>
    rw [serve] at hs
    rw [accepted]
    split at hs
    · cases hs
    · exact congrArg (r :: ·) (ih hs)

theorem accepted_sublist (h : H) (rs : List HostRequest) : (accepted h rs).Sublist rs := by
  induction rs generalizing h with
  | nil => exact .slnil
  | cons r rs ih =>
    rw [accepted]
    split
    · exact List.nil_sublist _
    · exact (ih _).cons_cons r

end Scheduler

/-! ### A record of them -/

/-- A scheduler with a record of the requests that it accepted. -/
structure Recorded (H : Type) where
  /-- The scheduler. -/
  scheduler : H
  /-- The accepted requests, oldest first. -/
  record : List HostRequest := []

namespace Recorded

variable {H : Type} [Scheduler H]

instance : Scheduler (Recorded H) where
  request h r := match Scheduler.request h.scheduler r with
    | (some err, scheduler) => (some err, { h with scheduler })
    | (none, scheduler) => (none, { scheduler, record := h.record ++ [r] })

theorem record_of_refused {h h' : Recorded H} {r : HostRequest} {err : HostError}
    (hr : Scheduler.request h r = (some err, h')) : h'.record = h.record := by
  simp only [Scheduler.request] at hr
  split at hr
  · cases hr
    rfl
  · cases hr

theorem record_of_request {h h' : Recorded H} {r : HostRequest}
    (hr : Scheduler.request h r = (none, h')) : h'.record = h.record ++ [r] := by
  simp only [Scheduler.request] at hr
  split at hr
  · cases hr
  · cases hr
    rfl

/-- The record grows by the requests that are accepted. -/
theorem record_of_accepts {h h' : Recorded H} {rs : List HostRequest}
    (ha : Scheduler.Accepts h rs h') : h'.record = h.record ++ rs := by
  induction ha with
  | done => exact (List.append_nil _).symm
  | refused hr => rw [record_of_refused hr, List.append_nil]
  | next hr _ ih => rw [ih, record_of_request hr, List.append_assoc, List.singleton_append]

end Recorded

/-! ### The dependencies of the host -/

namespace Host

variable {h h' : Host} {r : HostRequest} {j : JobId} {label : String}

theorem hasDependency_of_refused {err : HostError} (hr : h.request r = (some err, h')) :
    h'.hasDependency j label = h.hasDependency j label := by
  unfold request at hr
  split at hr
  · cases hr
    rfl
  · split at hr
    · cases hr
      rfl
    · cases hr

theorem eq_accept_of_request (hr : h.request r = (none, h')) : h' = h.accept r := by
  unfold request at hr
  split at hr
  · cases hr
  · split at hr
    · cases hr
    · cases hr
      rfl

/-- An accepted request adds or removes the one dependency that it names. -/
theorem hasDependency_accept : (h.accept r).hasDependency j label = true ↔
    (h.hasDependency j label = true ∧ r ≠ .removeDependency j label) ∨
      r = .addDependency j label := by
  cases r with
  | addDependency i l =>
    simp only [accept, hasDependency, Std.ExtTreeSet.contains_insert, Bool.or_eq_true, beq_iff_eq,
      Std.LawfulEqOrd.compare_eq_iff_eq, Dependency.mk.injEq, HostRequest.addDependency.injEq]
    simp [or_comm]
  | removeDependency i l =>
    simp [accept, hasDependency, Std.ExtTreeSet.contains_erase, and_comm]
  | updateJobspec | reprioritizeAll => simp [accept, hasDependency]

/-- The host carries a dependency after some requests if one of them adds it, or if it did
before and none removes it, where they do not do both. -/
theorem hasDependency_of_accepts {rs : List HostRequest} (ha : Scheduler.Accepts h rs h')
    (hone : .removeDependency j label ∈ rs → .addDependency j label ∉ rs) :
    h'.hasDependency j label = true ↔
      (h.hasDependency j label = true ∧ .removeDependency j label ∉ rs) ∨
        .addDependency j label ∈ rs := by
  induction ha with
  | done => simp
  | refused hr => simp [hasDependency_of_refused hr]
  | @next h h₁ h' r rs hr _ ih =>
    have accept : (h.accept r).hasDependency j label = true ↔ _ := hasDependency_accept
    rw [← eq_accept_of_request hr] at accept
    rw [ih fun hrem hadd => hone (List.mem_cons_of_mem _ hrem) (List.mem_cons_of_mem _ hadd),
      accept]
    simp only [List.mem_cons, eq_comm (b := r), not_or, ne_eq] at hone ⊢
    grind

end Host

end JobAdmission

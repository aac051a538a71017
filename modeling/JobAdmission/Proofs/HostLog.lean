import JobAdmission.Proofs.Requests
import JobAdmission.Proofs.Run
import Mathlib.Data.List.Basic
import Mathlib.Data.List.Induction

/-!
# The host is true to its log

This module proves that a host which writes down what it is asked for can be believed
(`Host.log_faithful`), however it is used: requests are made of it, kinds of requests are armed,
and its log is taken, in any order. The logs that were taken and the present one are together the
requests that were carried out, in order. A dependency is outstanding exactly if the last of these
requests that is about it adds it. A request is not carried out only if its kind was armed since
the last request of this kind, or if it removes a dependency that is not outstanding, and then it
leaves no trace. However often a kind was armed, one request is refused for that.

What a request does is said once (`Host.request_cases`). Each part of the result is a lemma on one
use of the host, and from there an induction on the uses.
-/

namespace JobAdmission

namespace HostRequest

variable {d : Dependency} {rs : List HostRequest} {r : HostRequest}

/-- The dependency that a request adds or removes. -/
def dependency? : HostRequest → Option Dependency
  | .addDependency job label => some ⟨job, label⟩
  | .removeDependency job label => some ⟨job, label⟩
  | _ => none

/-- The last of some requests that adds or removes a dependency. -/
def latestOn (d : Dependency) (rs : List HostRequest) : Option HostRequest :=
  (rs.filter fun r => r.dependency? = some d).getLast?

theorem latestOn_concat :
    latestOn d (rs ++ [r]) = if r.dependency? = some d then some r else latestOn d rs := by
  rw [latestOn, List.filter_append]
  split
  · rename_i hr
    rw [List.filter_cons_of_pos (by simpa using hr), List.filter_nil, List.getLast?_concat]
  · rename_i hr
    rw [List.filter_cons_of_neg (by simpa using hr), List.filter_nil, List.append_nil]
    rfl

end HostRequest

open HostRequest

namespace Host

variable {h : Host} {op : HostOp} {rs : List HostRequest}

/-! ### Requests -/

/-- All that a request can come to: it is refused because its kind is armed, or because it removes a
dependency that is not outstanding, or it is carried out. -/
theorem request_cases (h : Host) (r : HostRequest) :
    (h.armed r.op = true ∧ h.request r = (some (.refused r.op), h.disarm r.op)) ∨
    (∃ job label, r = .removeDependency job label ∧ h.armed r.op = false ∧
      h.hasDependency job label = false ∧
      h.request r = (some (.noDependency job label), h)) ∨
    (h.armed r.op = false ∧
      (∀ job label, r = .removeDependency job label → h.hasDependency job label = true) ∧
      h.request r = (none, h.accept r)) := by
  unfold request
  split
  · rename_i armed
    exact .inl ⟨armed, rfl⟩
  · rename_i armed
    have unarmed : h.armed r.op = false := by simpa using armed
    right
    cases r with
    | removeDependency job label =>
      rw [objection]
      cases there : h.hasDependency job label with
      | false => exact .inl ⟨job, label, rfl, unarmed, there, rfl⟩
      | true =>
        refine .inr ⟨unarmed, ?_, rfl⟩
        rintro _ _ ⟨⟩
        exact there
    | addDependency | updateJobspec | reprioritizeAll =>
      exact .inr ⟨unarmed, by simp, rfl⟩

/-- A request uses up the arming of its kind, and of no other one. -/
theorem armed_request (h : Host) (r : HostRequest) (op : HostOp) :
    (h.request r).2.armed op = true ↔ h.armed op = true ∧ r.op ≠ op := by
  have other (unarmed : h.armed r.op = false) : h.armed op = true → r.op ≠ op := by
    rintro armed rfl
    simp [unarmed] at armed
  obtain ⟨-, hr⟩ | ⟨_, _, -, unarmed, -, hr⟩ | ⟨unarmed, -, hr⟩ := h.request_cases r
  · rw [hr, disarm, Bool.and_eq_true, bne_iff_ne, and_comm, ne_comm]
  · rw [hr]
    exact (and_iff_left_of_imp (other unarmed)).symm
  · rw [hr]
    exact (and_iff_left_of_imp (other unarmed)).symm

/-! ### Uses of a host -/

/-- What a host is used for. -/
inductive Use where
  /-- A request is made of it. -/
  | request (r : HostRequest)
  /-- The next request of a kind is to be refused. -/
  | arm (op : HostOp)
  /-- Its log is taken. -/
  | takeLog

/-- The host after a use. -/
def after (h : Host) : Use → Host
  | .request r => (h.request r).2
  | .arm op => h.arm op
  | .takeLog => h.takeLog.2

/-- The host after uses, one by one. -/
def afterAll (h : Host) (us : List Use) : Host := us.foldl after h

/-- The requests that are carried out in a use. -/
def carriedOut (h : Host) : Use → List HostRequest
  | .request r => if (h.request r).1 = none then [r] else []
  | .arm _ | .takeLog => []

/-- The requests whose log is taken in a use. -/
def taken (h : Host) : Use → List HostRequest
  | .takeLog => h.takeLog.1
  | .request _ | .arm _ => []

/-- A kind of requests was armed, and no request of this kind was made since. -/
def ArmedSince (us : List Use) (op : HostOp) : Prop :=
  ∃ before later, us = before ++ .arm op :: later ∧ ∀ r, .request r ∈ later → r.op ≠ op

variable {us : List Use} {u : Use}

theorem afterAll_append (h : Host) (us us' : List Use) :
    h.afterAll (us ++ us') = (h.afterAll us).afterAll us' := List.foldl_append

theorem afterAll_concat (h : Host) (us : List Use) (u : Use) :
    h.afterAll (us ++ [u]) = (h.afterAll us).after u := h.afterAll_append us [u]

/-! ### The log -/

/-- What is taken and what is left in the log are what was in the log and what is carried out. -/
theorem taken_append_log (h : Host) (u : Use) :
    h.taken u ++ (h.after u).log = h.log ++ h.carriedOut u := by
  cases u with
  | request r =>
    rw [taken, after, carriedOut]
    obtain ⟨-, hr⟩ | ⟨_, _, -, -, -, hr⟩ | ⟨-, -, hr⟩ := h.request_cases r
    · simp [hr, disarm]
    · simp [hr]
    · simp [hr, accept]
  | arm op => exact (List.append_nil _).symm
  | takeLog => rfl

theorem history_taken_append_log (h : Host) (us : List Use) :
    Run.history after taken h us ++ (h.afterAll us).log =
      h.log ++ Run.history after carriedOut h us := by
  induction us generalizing h with
  | nil => exact (List.append_nil _).symm
  | cons u us ih =>
    calc Run.history after taken h (u :: us) ++ (h.afterAll (u :: us)).log
      _ = h.taken u ++ (Run.history after taken (h.after u) us ++ ((h.after u).afterAll us).log) :=
        List.append_assoc ..
      _ = h.taken u ++ ((h.after u).log ++ Run.history after carriedOut (h.after u) us) := by
        rw [ih]
      _ = h.log ++ Run.history after carriedOut h (u :: us) := by
        rw [← List.append_assoc, taken_append_log, List.append_assoc, Run.history]

/-- Where the log is not taken, nothing is. -/
theorem history_taken_eq_nil (h : Host) (hu : .takeLog ∉ us) :
    Run.history after taken h us = [] := by
  induction us generalizing h with
  | nil => rfl
  | cons u us ih =>
    rw [List.mem_cons, not_or] at hu
    rw [Run.history, ih _ hu.2, List.append_nil]
    cases u with
    | takeLog => exact absurd rfl hu.1
    | request | arm => rfl

/-! ### Dependencies -/

/-- The outstanding dependencies are those that the last request about them adds. -/
def Follows (h : Host) (rs : List HostRequest) : Prop :=
  ∀ job label, h.hasDependency job label = true ↔
    latestOn ⟨job, label⟩ rs = some (.addDependency job label)

theorem follows_new : ({} : Host).Follows [] := by
  intro job label
  simp [hasDependency, latestOn]

theorem Follows.accept (hf : h.Follows rs) (r : HostRequest) :
    (h.accept r).Follows (rs ++ [r]) := by
  intro job label
  rw [hasDependency_accept, hf, latestOn_concat]
  cases r with
  | addDependency i l | removeDependency i l =>
    by_cases same : i = job ∧ l = label
    · simp [dependency?, same]
    · simp [dependency?, same]
  | updateJobspec | reprioritizeAll => simp [dependency?]

theorem Follows.after (hf : h.Follows rs) (u : Use) :
    (h.after u).Follows (rs ++ h.carriedOut u) := by
  cases u with
  | request r =>
    rw [carriedOut, Host.after]
    obtain ⟨-, hr⟩ | ⟨_, _, -, -, -, hr⟩ | ⟨-, -, hr⟩ := h.request_cases r
    · rw [hr, if_neg (by simp), List.append_nil]
      exact hf
    · rw [hr, if_neg (by simp), List.append_nil]
      exact hf
    · rw [hr, if_pos rfl]
      exact hf.accept r
  | arm | takeLog =>
    rw [carriedOut, List.append_nil]
    exact hf

theorem Follows.afterAll (hf : h.Follows rs) (us : List Use) :
    (h.afterAll us).Follows (rs ++ Run.history Host.after carriedOut h us) := by
  induction us generalizing h rs with
  | nil => simpa [Run.history, Host.afterAll] using hf
  | cons u us ih =>
    rw [Run.history, ← List.append_assoc]
    exact ih (hf.after u)

/-! ### Armed kinds -/

theorem armed_after (h : Host) (u : Use) (op : HostOp) : (h.after u).armed op = true ↔
    u = .arm op ∨ h.armed op = true ∧ ∀ r, u = .request r → r.op ≠ op := by
  cases u with
  | request r =>
    rw [after, armed_request]
    simp
  | arm op' => simp [after, arm, eq_comm (a := op)]
  | takeLog => simp [after, takeLog]

theorem armedSince_concat : ArmedSince (us ++ [u]) op ↔
    u = .arm op ∨ ArmedSince us op ∧ ∀ r, u = .request r → r.op ≠ op := by
  constructor
  · rintro ⟨before, later, same, spent⟩
    rcases List.eq_nil_or_concat' later with rfl | ⟨later, v, rfl⟩
    · obtain ⟨-, last⟩ := List.append_inj' same rfl
      exact .inl (List.cons.inj last).1
    · have same : us ++ [u] = (before ++ .arm op :: later) ++ [v] := by simpa using same
      obtain ⟨rfl, last⟩ := List.append_inj' same rfl
      obtain rfl := (List.cons.inj last).1
      refine .inr ⟨⟨before, later, rfl, fun r hr => spent r (List.mem_append_left _ hr)⟩, ?_⟩
      rintro r rfl
      exact spent r (by simp)
  · rintro (rfl | ⟨⟨before, later, rfl, spent⟩, hu⟩)
    · exact ⟨us, [], rfl, by simp⟩
    · refine ⟨before, later ++ [u], by simp, fun r hr => ?_⟩
      rcases List.mem_append.mp hr with hr | hr
      · exact spent r hr
      · exact hu r (List.mem_singleton.mp hr).symm

/-- The armed kinds of a host that was new are those that were armed since. -/
theorem armed_afterAll (us : List Use) (op : HostOp) :
    (afterAll {} us).armed op = true ↔ ArmedSince us op := by
  induction us using List.reverseRecOn with
  | nil => simp [afterAll, ArmedSince]
  | append_singleton us u ih => rw [afterAll_concat, armed_after, armedSince_concat, ih]

/-! ### The host and its log -/

/-- The host is true to the uses of it since it was new. -/
structure TrueTo (us : List Use) (h : Host) : Prop where
  /-- A dependency is outstanding if the last request about it, of the logs that were taken and
  the present one, adds it. -/
  outstanding : ∀ job label, h.hasDependency job label = true ↔
    latestOn ⟨job, label⟩ (Run.history after taken {} us ++ h.log) = some (.addDependency job label)
  /-- What is not carried out is of an armed kind, or removes a dependency that is not
  outstanding. -/
  fails_iff : ∀ r, (h.request r).1 ≠ none ↔ ArmedSince us r.op ∨
    ∃ job label, r = .removeDependency job label ∧ h.hasDependency job label = false
  /-- What is not carried out leaves the log and the dependencies as they are. -/
  intact : ∀ r, (h.request r).1 ≠ none →
    (h.request r).2.log = h.log ∧ (h.request r).2.dependencies = h.dependencies
  /-- A request is refused for being armed if its kind was armed since the last one of it. -/
  injected : ∀ r, (h.request r).1 = some (.refused r.op) ↔ ArmedSince us r.op
  /-- After a request, none of its kind is refused for being armed until the kind is armed anew. -/
  once : ∀ r later r', .arm r.op ∉ later → r'.op = r.op →
    (((h.after (.request r)).afterAll later).request r').1 ≠ some (.refused r'.op)
  /-- What was taken and what is in the log is what was carried out, in order. -/
  complete : Run.history after taken {} us ++ h.log = Run.history after carriedOut {} us
  /-- The log holds what was carried out since it was taken. -/
  recent : ∀ before later, us = before ++ .takeLog :: later → .takeLog ∉ later →
    h.log = Run.history after carriedOut (afterAll {} (before ++ [.takeLog])) later
  /-- The released jobs are those of the removals in the log. -/
  released : h.releasedJobs = HostRequest.releasedJobs h.log

/-- A request is refused for being armed exactly if its kind is armed. -/
theorem refused_iff (h : Host) (r : HostRequest) :
    (h.request r).1 = some (.refused r.op) ↔ h.armed r.op = true := by
  obtain ⟨armed, hr⟩ | ⟨_, _, -, unarmed, -, hr⟩ | ⟨unarmed, -, hr⟩ := h.request_cases r
  · simp [hr, armed]
  · simp [hr, unarmed]
  · simp [hr, unarmed]

/-- What keeps a request from being carried out. -/
theorem request_ne_none_iff (h : Host) (r : HostRequest) : (h.request r).1 ≠ none ↔
    h.armed r.op = true ∨
      ∃ job label, r = .removeDependency job label ∧ h.hasDependency job label = false := by
  obtain ⟨armed, hr⟩ | ⟨job, label, rfl, -, absent, hr⟩ | ⟨unarmed, there, hr⟩ := h.request_cases r
  · simp [hr, armed]
  · simp [hr, absent]
  · simp only [hr, unarmed, ne_eq, not_true_eq_false, Bool.false_eq_true, false_or, false_iff]
    rintro ⟨job, label, rfl, absent⟩
    simp [there job label rfl] at absent

theorem intact_of_refused {r : HostRequest} (hr : (h.request r).1 ≠ none) :
    (h.request r).2.log = h.log ∧ (h.request r).2.dependencies = h.dependencies := by
  obtain ⟨-, same⟩ | ⟨_, _, -, -, -, same⟩ | ⟨-, -, same⟩ := h.request_cases r
  · rw [same]
    exact ⟨rfl, rfl⟩
  · rw [same]
    exact ⟨rfl, rfl⟩
  · exact absurd (congrArg Prod.fst same) hr

/-- No kind is armed since a request of it, if it is not armed anew. -/
theorem not_armedSince {r : HostRequest} {later : List Use} (unarmed : .arm r.op ∉ later) :
    ¬ ArmedSince (us ++ .request r :: later) r.op := by
  induction later using List.reverseRecOn with
  | nil =>
    rw [armedSince_concat]
    rintro (same | ⟨-, spent⟩)
    · cases same
    · exact spent r rfl rfl
  | append_singleton later u ih =>
    rw [List.mem_append, List.mem_singleton, not_or] at unarmed
    rw [← List.cons_append, ← List.append_assoc, armedSince_concat]
    rintro (rfl | ⟨armed, -⟩)
    · exact unarmed.2 rfl
    · exact ih unarmed.1 armed

/-- However a host that was new is used, it is true to that. -/
theorem log_faithful (us : List Use) : TrueTo us (afterAll {} us) := by
  have complete : Run.history after taken {} us ++ (afterAll {} us).log =
      Run.history after carriedOut {} us := history_taken_append_log {} us
  refine ⟨?_, fun r => ?_, fun r => intact_of_refused, fun r => ?_,
    fun r later r' unarmed kind => ?_, complete, ?_, rfl⟩
  · rw [complete]
    exact follows_new.afterAll us
  · rw [request_ne_none_iff, armed_afterAll]
  · rw [refused_iff, armed_afterAll]
  · rw [← afterAll_concat, ← afterAll_append, List.append_assoc, List.singleton_append, Ne,
      refused_iff, armed_afterAll, kind]
    exact not_armedSince unarmed
  · rintro before later rfl quiet
    have since := history_taken_append_log (afterAll {} (before ++ [.takeLog])) later
    have emptied : (afterAll {} (before ++ [.takeLog])).log = [] := by
      rw [afterAll_concat]
      rfl
    rwa [history_taken_eq_nil _ quiet, emptied, List.nil_append, List.nil_append, ← afterAll_append,
      List.append_assoc, List.singleton_append] at since

end Host

end JobAdmission

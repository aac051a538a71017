import JobAdmission.Proofs.Binding
import JobAdmission.Proofs.Release

/-!
# Default projects

This module proves that a job which names no project and comes to a real account with a
default project when it is announced has that project written into its specification
(`World.project_written`). A job that waited at a placeholder comes to its real account when
it asks for its priority. It is given its bank then, and no project, so it runs without one
(`World.project_lost`). The theorem is about runs in which the job is never moved
(`World.StayingOrder`).
-/

namespace JobAdmission

/-- The job names no project where the event is a call on it. -/
def Event.OmitsProject {H : Type} (j : JobId) : Event H → Prop
  | .call _ _ job => job.id = j → job.project = none
  | _ => True

namespace World

variable {H : Type} [Scheduler H]

/-- In this event, the job is moved from one account to another one. -/
def Moves (w : World H) (j : JobId) (ev : Event H) : Prop :=
  w.accountOf j ≠ none ∧ (w.after ev).accountOf j ≠ none ∧ (w.after ev).accountOf j ≠ w.accountOf j

/-- In this event, the job comes to a real account with this default project. -/
def Joins (w : World H) (j : JobId) (p : String) (ev : Event H) : Prop :=
  ∃ k ∈ (w.after ev).accountOf j, w.accountOf j ≠ some k ∧
    ∃ a ∈ (w.after ev).account k, a.isPlaceholder = false ∧ a.terms.defaultProject = some p

/-- The host's order, where the job is not moved to another account, and the scheduler does not
refuse to change its specification. -/
def StayingOrder (j : JobId) (w : World H) (ev : Event H) : Prop :=
  w.HostOrder ev ∧ w.refusesSpec j ev = false ∧ ¬ w.Moves j ev

instance (w : World H) (j : JobId) : DecidablePred (w.Moves j) := fun ev =>
  inferInstanceAs (Decidable (w.accountOf j ≠ none ∧ (w.after ev).accountOf j ≠ none ∧
    (w.after ev).accountOf j ≠ w.accountOf j))

instance (w : World H) (j : JobId) (p : String) : DecidablePred (w.Joins j p) := fun ev =>
  inferInstanceAs (Decidable (∃ k ∈ (w.after ev).accountOf j, w.accountOf j ≠ some k ∧
    ∃ a ∈ (w.after ev).account k, a.isPlaceholder = false ∧ a.terms.defaultProject = some p))

instance (j : JobId) (w : World H) : DecidablePred (StayingOrder j w) := fun ev =>
  inferInstanceAs (Decidable (w.HostOrder ev ∧ w.refusesSpec j ev = false ∧ ¬ w.Moves j ev))

variable {w : World H} {ev : Event H} {j : JobId} {topic : Topic} {args : Json} {job : Job}
  {p : String}

omit [Scheduler H] in
theorem project_mem_givenPatches {a : Account} {byDefault : Bool} (omits : job.project = none)
    (hp : a.terms.defaultProject = some p) : .project p ∈ Engine.givenPatches job a byDefault := by
  rw [Engine.givenPatches, omits, hp]
  exact List.mem_append_right _ List.mem_cons_self

/-- A job that names no project and comes to an account with a default project has that
project written, unless it is moved there. -/
theorem accepts_project (h : StayingOrder j w ev) (joins : w.Joins j p ev)
    (omits : ev.OmitsProject j) : ∃ rs, w.Accepts ev rs ∧ .updateJobspec j (.project p) ∈ rs := by
  obtain ⟨k, hk, hne, a, ha, real, hp⟩ := joins
  rw [Option.mem_def] at hk ha
  obtain ⟨topic, args, job, rs, home, rfl, rfl, accepts, rfl, hstep, binds⟩ :=
    call_of_accountOf hk hne
  refine ⟨rs, accepts, ?_⟩
  cases binds with
  | kept same =>
    refine absurd ?_ hne
    rw [accountOf_eq]
    exact congrArg (Option.map Handle.key) (same.symm.trans hstep)
  | freed _ hb => simp [hb] at hstep
  | placed _ _ hk' _ ha' hp' =>
    obtain rfl := Option.some.inj (hk'.symm.trans hstep)
    cases ha.symm.trans ha'
    simp [real] at hp'
  | @admitted a' byDefault _ _ hk' _ ha' real' _ asked =>
    obtain rfl := Option.some.inj (hk'.symm.trans hstep)
    -- the account was granted the default project before the call
    obtain ⟨a'', ha'', usage, rfl⟩ :=
      (w.engine.growsTo_stepOf topic args job (w.storage job.id)).stays _ a' ha'
    cases ha.symm.trans ha''
    exact asked.all (ne_jobspecUpdate h.2.1) _ (project_mem_givenPatches (omits rfl) hp)
  | moved _ hb _ _ _ =>
    have bound : w.accountOf job.id ≠ none := by
      rw [accountOf, (Engine.boundAccount_eq_some.mp hb).1]
      simp
    exact absurd ⟨bound, by simp [hk], by rw [hk]; exact hne.symm⟩ h.2.2

/-- A job that names no project and comes to a real account with a default project has that
project written into its specification, in every run in which it is not moved. -/
theorem project_written {config : Config} {host : Recorded H}
    {audit : Option AuditTrail} {pre post : List (Event (Recorded H))} {ev : Event (Recorded H)}
    (h : (start config host audit).Obeys (StayingOrder j) (pre ++ ev :: post))
    (omits : ev.OmitsProject j) (joins : ((start config host audit).afterAll pre).Joins j p ev) :
    .updateJobspec j (.project p) ∈
      Run.history after acceptedIn (start config host audit) (pre ++ ev :: post) := by
  obtain ⟨hpre, hev, -⟩ := obeys_append.mp h
  obtain ⟨rs, accepts, written⟩ := accepts_project hev joins omits
  rw [← accepts.acceptedIn_eq] at written
  exact Run.mem_history written

/-! ### A project that is lost -/

namespace Sample

/-- A record of the account with a default project. -/
def projectRecord : Json :=
  .ofEntries
    [("userid", .ofUInt32 key.userid), ("bank", .string key.bank),
     ("default_bank", .string key.bank), ("fairshare", .ofFloat (.ofRatio false 1 2)),
     ("max_running_jobs", .ofInt64 0), ("max_active_jobs", .ofInt64 0), ("active", .ofInt64 1),
     ("default_project", .string "astro")]

/-- The record tells of the account. -/
def known : List (Event (Recorded Host)) := [.feed .accounts [projectRecord]]

/-- Job 7 is announced. -/
def announcing : Event (Recorded Host) := .call .new .null (Sample.job 7)

/-- Job 7 waits at a placeholder when the record tells of its account. -/
def waitingFirst : List (Event (Recorded Host)) :=
  [announcing, .call .depend .null (Sample.job 7)] ++ known

/-- Job 7 asks for its priority. -/
def askingLate : Event (Recorded Host) := .call .priority .null (Sample.job 7)

end Sample

/-- In the sample, the account is known when the job is announced. -/
theorem sample_project_written :
    Sample.recording.Obeys (StayingOrder 7) (Sample.known ++ [Sample.announcing]) ∧
      Sample.announcing.OmitsProject 7 ∧
      (Sample.recording.afterAll Sample.known).Joins 7 "astro" Sample.announcing ∧
      .updateJobspec 7 (.project "astro") ∈
        Run.history after acceptedIn Sample.recording (Sample.known ++ [Sample.announcing]) := by
  have obeys : Sample.recording.Obeys (StayingOrder 7) (Sample.known ++ [Sample.announcing]) := by
    decide +kernel
  have joins : (Sample.recording.afterAll Sample.known).Joins 7 "astro" Sample.announcing := by
    decide +kernel
  have omits : Sample.announcing.OmitsProject 7 := fun _ => rfl
  exact ⟨obeys, omits, joins, project_written obeys omits joins⟩

/-- If the job waits at a placeholder first, it is moved to its account and given its priority,
and its project is not written, though the host refuses nothing. -/
theorem project_lost :
    Sample.recording.Obeys HostOrder (Sample.waitingFirst ++ [Sample.askingLate]) ∧
      (∀ op, Sample.recording.engine.host.scheduler.armed op = false) ∧
      Sample.askingLate.OmitsProject 7 ∧
      (Sample.recording.afterAll Sample.waitingFirst).Joins 7 "astro" Sample.askingLate ∧
      ((Sample.recording.afterAll Sample.waitingFirst).step .priority .null
        (Sample.job 7)).outcome = .ok (.priority 50000) ∧
      .updateJobspec 7 (.project "astro") ∉
        Run.history after acceptedIn Sample.recording
          (Sample.waitingFirst ++ [Sample.askingLate]) := by
  refine ⟨by decide +kernel, fun _ => rfl, fun _ => rfl, by decide +kernel, by decide +kernel, ?_⟩
  decide +kernel

end World

end JobAdmission

import JobAdmission.Proofs.Held

/-!
# First held, first released

This module proves that held jobs are released in the order in which they were held
(`World.releases_in_order`), whatever the feed does to the caps and whatever the scheduler
refuses meanwhile. What was held and released is read off the requests that the scheduler
accepted: the scheduler is any one, and keeps a record of them (`Recorded`). The proof
follows the queue of an account through a run (`World.Obeys.queue`), and every job that was
held once to where it is now (`World.Obeys.fate`).
-/

namespace JobAdmission

open HostRequest

/-- Two jobs do not come in both orders. -/
theorem not_sublist_swap {i j : JobId} {l : List JobId} (hl : l.Nodup) (hij : [i, j].Sublist l) :
    ¬ [j, i].Sublist l := by
  induction l with
  | nil => simp at hij
  | cons a l ih =>
    obtain ⟨ha, hl⟩ := List.nodup_cons.mp hl
    intro hji
    rcases List.cons_sublist_cons'.mp hij with later | ⟨rfl, hj⟩
    · rcases List.cons_sublist_cons'.mp hji with later' | ⟨rfl, -⟩
      · exact ih hl later later'
      · exact ha (later.subset (List.mem_cons_of_mem _ List.mem_cons_self))
    · rcases List.cons_sublist_cons'.mp hji with later' | ⟨rfl, -⟩
      · exact ha (later'.subset (List.mem_cons_of_mem _ List.mem_cons_self))
      · exact ha (List.singleton_sublist.mp hj)

namespace World

variable {H : Type} [Scheduler H]

/-! ### What a run tells -/

/-- The jobs that left in the course of events. -/
def leavers (es : List (Event H)) : List JobId := es.filterMap Event.leaving

/-- The requests that the scheduler accepts in an event, by its record. When it changes of
its own, nothing is asked of it. -/
def acceptedIn (w : World (Recorded H)) : Event (Recorded H) → List HostRequest
  | .scheduler _ => []
  | ev => (w.after ev).engine.host.record.drop w.engine.host.record.length

/-- The jobs that an event makes wait. -/
def heldIn (w : World (Recorded H)) (ev : Event (Recorded H)) : List JobId :=
  heldJobs (w.acceptedIn ev)

/-- The jobs that an event makes wait no longer. -/
def releasedIn (w : World (Recorded H)) (ev : Event (Recorded H)) : List JobId :=
  releasedJobs (w.acceptedIn ev)

/-- The jobs of the account of a key that an event makes wait. -/
def heldAt (k : AccountKey) (w : World (Recorded H)) (ev : Event (Recorded H)) : List JobId :=
  heldJobs ((w.after ev).requestsAt k (w.acceptedIn ev))

/-- The jobs of the account of a key that an event makes wait no longer. -/
def releasedAt (k : AccountKey) (w : World (Recorded H)) (ev : Event (Recorded H)) : List JobId :=
  releasedJobs ((w.after ev).requestsAt k (w.acceptedIn ev))

/-- In a run, jobs are released in the order in which they were held. -/
structure ReleasesInOrder (w : World (Recorded H)) (es : List (Event (Recorded H))) : Prop where
  /-- At every account, those that are released are some of those that were held, in order. -/
  order : ∀ k, (Run.history after (releasedAt k) w es).Sublist (Run.history after (heldAt k) w es)
  /-- No job is held twice, wherever. -/
  heldOnce : (Run.history after heldIn w es).Nodup
  /-- No job is released twice, wherever. -/
  releasedOnce : (Run.history after releasedIn w es).Nodup
  /-- When a job is released, every job that was held before it at its account was released
  already, or left. -/
  earlier : ∀ pre ev post, es = pre ++ ev :: post → ∀ k i j,
    j ∈ releasedAt k (w.afterAll pre) ev → [i, j].Sublist (Run.history after (heldAt k) w pre) →
      i ∈ Run.history after (releasedAt k) w pre ∨ i ∈ leavers pre
  /-- Only when a job leaves, another one is released, and no more than one. -/
  single : ∀ pre ev post, es = pre ++ ev :: post →
    (releasedIn (w.afterAll pre) ev).length ≤ ev.leaving.toList.length
  /-- Every job that is held is held at an account. -/
  heldSomewhere : ∀ pre ev post, es = pre ++ ev :: post → ∀ j ∈ heldIn (w.afterAll pre) ev,
    ∃ k, j ∈ heldAt k (w.afterAll pre) ev
  /-- Every job that is released is released at an account. -/
  releasedSomewhere : ∀ pre ev post, es = pre ++ ev :: post →
    ∀ j ∈ releasedIn (w.afterAll pre) ev, ∃ k, j ∈ releasedAt k (w.afterAll pre) ev

variable {w : World (Recorded H)} {ev : Event (Recorded H)} {es : List (Event (Recorded H))}
  {rs : List HostRequest} {k : AccountKey} {i j : JobId}

/-- The record tells what was accepted. -/
theorem Accepts.acceptedIn_eq (h : w.Accepts ev rs) : w.acceptedIn ev = rs := by
  have grows : ∀ {w' : World (Recorded H)},
      Scheduler.Accepts w.engine.host rs w'.engine.host →
        w'.engine.host.record.drop w.engine.host.record.length = rs := by
    intro w' accepts
    rw [Recorded.record_of_accepts accepts, List.drop_left]
  cases ev with
  | scheduler => exact h.symm
  | feed | reprioritize | call => exact grows h

/-- What an event does, with the requests that the record tells. -/
theorem Sound.does_accepted (hs : w.Sound) (h : w.HostOrder ev) : w.Does ev (w.acceptedIn ev) := by
  obtain ⟨rs, does⟩ := hs.does h
  rwa [does.accepts.acceptedIn_eq]

/-! ### Along a run -/

/-- What an event tells of a job only before, and never after, some property holds of it, a
run tells once. -/
theorem Obeys.nodup_history {P : World (Recorded H) → JobId → Prop}
    {f : World (Recorded H) → Event (Recorded H) → List JobId}
    (keep : ∀ w ev j, w.Sound → w.HostOrder ev → P w j → P (w.after ev) j)
    (single : ∀ w ev, w.Sound → w.HostOrder ev → (f w ev).length ≤ 1)
    (new : ∀ w ev j, w.Sound → w.HostOrder ev → j ∈ f w ev → ¬ P w j ∧ P (w.after ev) j)
    (h : w.Obeys HostOrder es) (hs : w.Sound) :
    (Run.history after f w es).Nodup ∧ ∀ j ∈ Run.history after f w es, ¬ P w j := by
  induction es generalizing w with
  | nil => exact ⟨.nil, fun _ hj => nomatch hj⟩
  | cons ev es ih =>
    obtain ⟨nodup, later⟩ := ih h.2 (hs.after h.1)
    have now : (f w ev).Nodup := by
      match hf : f w ev, single w ev hs h.1 with
      | [], _ => exact .nil
      | [_], _ => exact List.nodup_singleton _
    constructor
    · refine List.nodup_append'.mpr ⟨now, nodup, fun j hj hj' => ?_⟩
      exact later j hj' (new w ev j hs h.1 hj).2
    · intro j hj hP
      rcases List.mem_append.mp hj with hj | hj
      · exact (new w ev j hs h.1 hj).1 hP
      · exact later j hj (keep w ev j hs h.1 hP)

/-- The jobs that a run releases, followed by those that are held after it, come in the order
of those that were held before it, followed by those that it holds. -/
theorem Obeys.queue (h : w.Obeys HostOrder es) (hs : w.Sound) (k : AccountKey) :
    (Run.history after (releasedAt k) w es ++ ((w.afterAll es).scene k).held).Sublist
      ((w.scene k).held ++ Run.history after (heldAt k) w es) := by
  induction es generalizing w with
  | nil => exact List.sublist_append_left _ _
  | cons ev es ih =>
    have now : (releasedAt k w ev ++ ((w.after ev).scene k).held).Sublist
        ((w.scene k).held ++ heldAt k w ev) := ((hs.does_accepted h.1).step k).queue
    have later := ih h.2 (hs.after h.1)
    rw [Run.history, Run.history, List.append_assoc, ← List.append_assoc (w.scene k).held]
    refine (later.append_left _).trans ?_
    rw [← List.append_assoc]
    exact now.append_right _

/-- A job that was held before a run, or in its course, was released, or left, or is held. -/
theorem Obeys.fate (h : w.Obeys HostOrder es) (hs : w.Sound)
    (hi : i ∈ (w.scene k).held ∨ i ∈ Run.history after (heldAt k) w es) :
    i ∈ Run.history after (releasedAt k) w es ∨ i ∈ leavers es ∨
      i ∈ ((w.afterAll es).scene k).held := by
  induction es generalizing w with
  | nil => exact .inr (.inr (hi.resolve_right (fun h => nomatch h)))
  | cons ev es ih =>
    have step := (hs.does_accepted h.1).step k
    have later := fun hi => ih h.2 (hs.after h.1) hi
    have left_of_leaving : ev.leaving = some i → i ∈ leavers (ev :: es) := by
      intro hleaving
      simp [leavers, hleaving]
    have onward : (i ∈ Run.history after (releasedAt k) (w.after ev) es ∨ i ∈ leavers es ∨
        i ∈ (((w.after ev).afterAll es).scene k).held) →
        i ∈ Run.history after (releasedAt k) w (ev :: es) ∨ i ∈ leavers (ev :: es) ∨
          i ∈ ((w.afterAll (ev :: es)).scene k).held := by
      refine Or.imp (List.mem_append_right _) (Or.imp_left fun hi => ?_)
      exact ((List.sublist_cons_self ev es).filterMap _).subset hi
    rcases hi with hheld | hi
    · rcases step.remains hheld with hreleased | hstays | hnone
      · exact .inl (List.mem_append_left _ hreleased)
      · exact onward (later (.inl hstays))
      · -- the account sees a held job no more only if it leaves
        refine .inr (.inl (left_of_leaving ?_))
        refine (hs.settled_after h.1 ((hs.scenes k).settled_of_held hheld)).resolve_left ?_
        rintro ⟨_, _, -, -, hm, -⟩
        simp [hnone] at hm
    · rcases List.mem_append.mp hi with hnew | hi
      · exact onward (later (.inl (step.mem_heldJobs hnew).1))
      · exact onward (later (.inr hi))

/-- What is held at an account is some of what is held anywhere. -/
theorem heldAt_sublist (k : AccountKey) (es : List (Event (Recorded H))) :
    (Run.history after (heldAt k) w es).Sublist (Run.history after heldIn w es) := by
  induction es generalizing w with
  | nil => exact .slnil
  | cons ev es ih =>
    have now : (heldAt k w ev).Sublist (heldIn w ev) := List.filter_sublist.filterMap _
    exact now.append ih

/-! ### One event -/

theorem Sound.length_heldIn (hs : w.Sound) (h : w.HostOrder ev) : (heldIn w ev).length ≤ 1 := by
  have single := (hs.does_accepted h).asks.single
  rw [← length_heldJobs_add] at single
  exact (Nat.le_add_right _ _).trans single

/-- Only when a job leaves, another one is released, and no more than one. -/
theorem Sound.length_releasedIn (hs : w.Sound) (h : w.HostOrder ev) :
    (releasedIn w ev).length ≤ ev.leaving.toList.length := by
  have asks := (hs.does_accepted h).asks
  have single := asks.single
  rw [← length_heldJobs_add] at single
  cases hr : releasedIn w ev with
  | nil => exact Nat.zero_le _
  | cons j js =>
    obtain ⟨label, hmem⟩ := mem_releasedJobs.mp (show j ∈ releasedIn w ev by simp [hr])
    obtain ⟨i, hi⟩ := Option.isSome_iff_exists.mp (asks.leaves _ hmem (by simp [removed?]))
    rw [← hr, hi]
    exact (Nat.le_add_left _ _).trans single

/-! ### From the start -/

section Start

variable {config : Config} {host : Recorded H} {audit : Option AuditTrail}

theorem Obeys.nodup_heldIn (h : (start config host audit).Obeys HostOrder es) :
    (Run.history after heldIn (start config host audit) es).Nodup :=
  (Obeys.nodup_history (P := Past) (fun _ _ _ hs h => hs.past_after h)
    (fun _ _ hs h => hs.length_heldIn h)
    (fun _ _ _ hs h => (hs.does_accepted h).past_of_held hs h) h (start_sound config host audit)).1

theorem Obeys.nodup_releasedIn (h : (start config host audit).Obeys HostOrder es) :
    (Run.history after releasedIn (start config host audit) es).Nodup := by
  have single : ∀ (w : World (Recorded H)) ev, w.Sound → w.HostOrder ev →
      (releasedIn w ev).length ≤ 1 := fun w ev hs h =>
    (hs.length_releasedIn h).trans (by cases ev.leaving <;> simp)
  exact (Obeys.nodup_history (P := Free) (fun _ _ _ hs h => hs.free_after h) single
    (fun _ _ _ hs h => (hs.does_accepted h).free_of_released hs h) h
    (start_sound config host audit)).1

/-- The jobs that were released, followed by those that are held, are some of those that were
held, in order. -/
theorem Obeys.queue_of_start (h : (start config host audit).Obeys HostOrder es)
    (k : AccountKey) :
    (Run.history after (releasedAt k) (start config host audit) es ++
      (((start config host audit).afterAll es).scene k).held).Sublist
        (Run.history after (heldAt k) (start config host audit) es) := by
  have queue := h.queue (start_sound config host audit) k
  rwa [held_start, List.nil_append] at queue

/-- No job is released while one that was held before it is held. -/
theorem Obeys.notMem_held {pre : List (Event (Recorded H))}
    (h : (start config host audit).Obeys HostOrder (pre ++ [ev]))
    (hj : j ∈ releasedAt k ((start config host audit).afterAll pre) ev)
    (hij : [i, j].Sublist (Run.history after (heldAt k) (start config host audit) pre)) :
    i ∉ (((start config host audit).afterAll pre).scene k).held := by
  intro hi
  obtain ⟨hpre, hev, -⟩ := obeys_append.mp h
  have hs := hpre.sound (start_sound config host audit)
  have before : [i, j].Sublist
      (Run.history after (heldAt k) (start config host audit) (pre ++ [ev])) := by
    rw [Run.history_append]
    exact hij.trans (List.sublist_append_left _ _)
  have nodup : (Run.history after (heldAt k) (start config host audit) (pre ++ [ev])).Nodup :=
    h.nodup_heldIn.sublist (heldAt_sublist k _)
  have released : j ∈ Run.history after (releasedAt k) (start config host audit) (pre ++ [ev]) := by
    rw [Run.history_append, Run.history]
    exact List.mem_append_right _ (List.mem_append_left _ hj)
  rcases ((hs.does_accepted hev).step k).remains_of_release (hs.scenes k) hj hi with rfl | hstays
  · exact not_sublist_swap nodup before before
  · -- the job that was released comes before the one that is held, so it was held before it
    refine not_sublist_swap nodup before (List.Sublist.trans ?_ (h.queue_of_start k))
    rw [afterAll_append]
    exact (List.singleton_sublist.mpr released).append (List.singleton_sublist.mpr hstays)

/-- Held jobs are released in the order in which they were held, in every run. -/
theorem releases_in_order (h : (start config host audit).Obeys HostOrder es) :
    (start config host audit).ReleasesInOrder es := by
  have hs := start_sound config host audit
  have split : ∀ {pre ev post}, es = pre ++ ev :: post →
      (start config host audit).Obeys HostOrder pre ∧
        ((start config host audit).afterAll pre).HostOrder ev ∧
          ((start config host audit).afterAll pre).Sound := by
    rintro pre ev post rfl
    obtain ⟨hpre, hev, -⟩ := obeys_append.mp h
    exact ⟨hpre, hev, hpre.sound hs⟩
  refine ⟨fun k => ?_, h.nodup_heldIn, h.nodup_releasedIn, ?_, ?_, ?_, ?_⟩
  · exact (List.sublist_append_left _ _).trans (h.queue_of_start k)
  · intro pre ev post hes k i j hj hij
    obtain ⟨hpre, hev, -⟩ := split hes
    have notMem := Obeys.notMem_held (obeys_append.mpr ⟨hpre, hev, trivial⟩) hj hij
    have fate := hpre.fate hs (k := k) (.inr (hij.subset List.mem_cons_self))
    exact fate.imp_right fun hi => hi.resolve_right notMem
  · intro pre ev post hes
    obtain ⟨-, hev, hs⟩ := split hes
    exact hs.length_releasedIn hev
  · intro pre ev post hes j hj
    obtain ⟨-, hev, hs⟩ := split hes
    obtain ⟨k, hk⟩ := (hs.does_accepted hev).asks.accountOf_of_held hj
    exact ⟨k, mem_heldJobs_requestsAt.mpr ⟨hj, hk⟩⟩
  · intro pre ev post hes j hj
    obtain ⟨-, hev, hs⟩ := split hes
    obtain ⟨k, hk⟩ := (hs.does_accepted hev).asks.accountOf_of_released hj
    exact ⟨k, mem_releasedJobs_requestsAt.mpr ⟨hj, hk⟩⟩

end Start

namespace Sample

/-- The world before anything was told, whose host keeps a record. -/
def recording : World (Recorded Host) := .start Config.default { scheduler := {} } none

/-- Three jobs come to an account with one running slot: job 7 runs, and jobs 8 and 9 are
held. Job 8 is released when job 7 leaves, and runs, and job 9 is released when job 8
leaves. -/
def releasing : List (Event (Recorded Host)) :=
  [.feed .accounts [record 1], .call .new .null (job 7), .call .new .null (job 8),
   .call .new .null (job 9), .call .depend .null (job 7), .call .depend .null (job 8),
   .call .depend .null (job 9), .call .priority .null (job 7), .call .run .null (job 7),
   .call .inactive .null { job 7 with allocObserved := true }, .call .priority .null (job 8),
   .call .run .null (job 8), .call .inactive .null { job 8 with allocObserved := true }]

end Sample

/-- In the sample, two jobs are released. -/
theorem sample_releases :
    Sample.recording.Obeys HostOrder Sample.releasing ∧
      Run.history after (releasedAt Sample.key) Sample.recording Sample.releasing = [8, 9] ∧
      Sample.recording.ReleasesInOrder Sample.releasing := by
  have obeys : Sample.recording.Obeys HostOrder Sample.releasing := by decide +kernel
  exact ⟨obeys, by decide +kernel, releases_in_order obeys⟩

end World

end JobAdmission

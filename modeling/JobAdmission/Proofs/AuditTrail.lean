import JobAdmission.Proofs.Reports
import JobAdmission.Proofs.Turns
import JobAdmission.Proofs.World
import Std.Data.String.ToNat

/-!
# The audit trail is faithful

This module proves that the audit trail of an engine tells what its calls did
(`Engine.trail_faithful`), whatever calls come and whatever the scheduler refuses, as long as
the trail drops nothing. A call that fails tells so last and once, with the wording of the
error, and no other call tells of a failure. The jobs that were held, and those that were
released, are those of the requests that the scheduler accepted, in order. That a job was
moved to a real account is told exactly where a call on its priority moved it.

A step says what it tells (`Engine.stepOf_reports`); here a turn of the engine does, and a run
by induction on its turns.
-/

namespace JobAdmission

open HostRequest AuditEvent

namespace AuditEvent

theorem jobsOf_append (action : AuditAction) (evs evs' : List AuditEvent) :
    jobsOf action (evs ++ evs') = jobsOf action evs ++ jobsOf action evs' := by
  simp [jobsOf]

theorem detailsOf_append (action : AuditAction) (evs evs' : List AuditEvent) :
    detailsOf action (evs ++ evs') = detailsOf action evs ++ detailsOf action evs' := by
  simp [detailsOf]

end AuditEvent

namespace Engine

/-- A release names one job. -/
theorem releaseDetail_injective {i j : JobId} (h : releaseDetail i = releaseDetail j) :
    i = j := by
  rw [releaseDetail, releaseDetail, String.append_right_inj] at h
  exact UInt64.toNat_inj.mp (Nat.repr_inj.mp h)

variable {H : Type} [Scheduler H] {e e₁ : Engine (Recorded H)} {job : Job} {s : JobStorage}
  {rs : List HostRequest} {evs : List AuditEvent}

/-! ### Turns -/

/-- The events that are kept, oldest first. -/
def trail (e : Engine H) : List AuditEvent := (e.audit.map (·.events)).getD []

/-- There is an audit trail, and it drops nothing. -/
def KeepsAll (e : Engine H) : Prop := ∃ t, e.audit = some t ∧ t.capacity = none

/-- The events that a turn tells. -/
def toldIn (e : Engine (Recorded H)) (t : Turn (Recorded H)) : List AuditEvent :=
  (e.take t).trail.drop e.trail.length

/-- The requests that the scheduler accepts in a turn, by its record. When it changes of its
own, nothing is asked of it. -/
def acceptedIn (e : Engine (Recorded H)) : Turn (Recorded H) → List HostRequest
  | .scheduler _ => []
  | t => (e.take t).host.record.drop e.host.record.length

/-- The audit trail is true to a call. -/
structure CallTold (e : Engine (Recorded H)) (topic : Topic) (args : Json) (job : Job)
    (s : JobStorage) : Prop where
  /-- The events are on the job of the call. -/
  own : ∀ ev ∈ e.toldIn (.call topic args job s), ev.job = job.id ∧ ev.userid = job.userid
  /-- A call that fails tells so once and last, with the wording of the error. -/
  failed : ∀ err, (e.stepOf topic args job s).outcome = .error err →
    ∃ bank, (e.toldIn (.call topic args job s)).filter isFailure = [err.event job bank] ∧
      (e.toldIn (.call topic args job s)).getLast? = some (err.event job bank)
  /-- A call that ends well tells of no failure. -/
  done : ∀ reply, (e.stepOf topic args job s).outcome = .ok reply →
    (e.toldIn (.call topic args job s)).filter isFailure = []
  /-- That the job was moved to a real account is told exactly where a call on its priority did
  that. -/
  moved : jobsOf .rebind (e.toldIn (.call topic args job s)) =
    if topic.onPriority ∧ e.Moves s (e.stepOf topic args job s) then [job.id] else []
  /-- Only before waiting for resources and at its priority a job is held. -/
  holder : topic ≠ .depend → ¬ topic.onPriority →
    heldJobs (e.acceptedIn (.call topic args job s)) = []

/-- The audit trail is true to all that turns did. -/
structure TrailFaithful (e : Engine (Recorded H)) (ts : List (Turn (Recorded H))) : Prop where
  /-- The trail grows by what the turns tell, and drops nothing. -/
  kept : (e.takeAll ts).trail = e.trail ++ Run.history take toldIn e ts
  /-- It is true to every call. -/
  calls : ∀ pre topic args job s post, ts = pre ++ .call topic args job s :: post →
    (e.takeAll pre).CallTold topic args job s
  /-- Nothing but calls is told. -/
  besides : ∀ pre t post, ts = pre ++ t :: post → (∀ topic args job s, t ≠ .call topic args job s) →
    (e.takeAll pre).toldIn t = []
  /-- The jobs that it tells were held are those of the accepted requests. -/
  holds : jobsOf .hold (Run.history take toldIn e ts) = heldJobs (Run.history take acceptedIn e ts)
  /-- The jobs that it names as released are those of the accepted requests, and no others. -/
  releases : ∀ js : List JobId,
    detailsOf .release (Run.history take toldIn e ts) = js.map (some ∘ releaseDetail) ↔
      js = releasedJobs (Run.history take acceptedIn e ts)

omit [Scheduler H] in
/-- A trail that drops nothing grows by the events that are kept. -/
theorem Writes.trail_eq (h : e.Writes e₁ rs evs) (hk : e.KeepsAll) :
    e₁.KeepsAll ∧ e₁.trail = e.trail ++ evs := by
  obtain ⟨t, ht, unbounded⟩ := hk
  have audit : e₁.audit = some { t with events := t.events ++ evs } := by
    rw [h.audit, ht, Option.map_some, AuditTrail.recordAll_of_unbounded unbounded]
  refine ⟨⟨_, audit, unbounded⟩, ?_⟩
  rw [trail, trail, audit, ht]
  rfl

/-- The record and the trail tell what went together of requests and events in a call. -/
theorem told_in_call (hk : e.KeepsAll) (topic : Topic) (args : Json) (job : Job)
    (s : JobStorage) : ∃ moved, (e.take (.call topic args job s)).KeepsAll ∧
      (e.take (.call topic args job s)).trail = e.trail ++ e.toldIn (.call topic args job s) ∧
      Told job (e.stepOf topic args job s).outcome (e.acceptedIn (.call topic args job s))
        (e.toldIn (.call topic args job s)) moved ∧
      (moved = true ↔ topic.onPriority ∧ e.Moves s (e.stepOf topic args job s)) := by
  obtain ⟨moved, ⟨rs, evs, writes, told⟩, moves⟩ := e.stepOf_reports topic args job s
  obtain ⟨keeps, trail⟩ := writes.trail_eq hk
  have events : e.toldIn (.call topic args job s) = evs := by
    rw [toldIn, take, trail, List.drop_left]
  have requests : e.acceptedIn (.call topic args job s) = rs := by
    rw [acceptedIn, take, writes.record, List.drop_left]
    exact fun _ h => nomatch h
  rw [events, requests]
  exact ⟨moved, keeps, trail, told, moves⟩

theorem NewJobEffect.heldJobs_eq_nil {h h' : H} {l l' : Ledger} {b : JobBinding}
    {byDefault : Bool} {s' : JobStorage} {outcome : Except HandlerError Unit}
    (effect : NewJobEffect h job l b byDefault s outcome rs h' l' s') : heldJobs rs = [] := by
  cases effect with
  | rejected | placed | detached => rfl
  | enrolled =>
    refine List.filterMap_eq_nil_iff.mpr fun r hr => ?_
    have asked := (Scheduler.accepted_sublist _ _).subset hr
    obtain ⟨p, -, rfl⟩ := List.mem_map.mp asked
    rfl

theorem InactiveEffect.heldJobs_eq_nil {e : Engine H} {h' : H} {l' : Ledger} {s' : JobStorage}
    {outcome : Except HandlerError Unit} (effect : InactiveEffect e job s outcome rs h' l' s') :
    heldJobs rs = [] := by
  cases effect with
  | unbound | left | freed | released | kept => rfl

/-- No other call than one before waiting for resources, or on a priority, holds its job. -/
theorem heldJobs_acceptedIn {topic : Topic} (args : Json) (hd : topic ≠ .depend)
    (hp : ¬ topic.onPriority) : heldJobs (e.acceptedIn (.call topic args job s)) = [] := by
  have accepted : ∀ {rs}, Scheduler.Accepts e.host rs (e.stepOf topic args job s).engine.host →
      heldJobs rs = [] → heldJobs (e.acceptedIn (.call topic args job s)) = [] := by
    intro rs ha none
    change heldJobs ((e.stepOf topic args job s).engine.host.record.drop _) = []
    rwa [Recorded.record_of_accepts ha, List.drop_left]
  cases topic with
  | validate => exact accepted (.of_eq (e.validate_host job s)) rfl
  | new =>
    obtain ⟨rs, effect⟩ := e.newJob_effect job s
    exact accepted effect.accepts effect.heldJobs_eq_nil
  | depend => exact absurd rfl hd
  | priority => exact absurd (.inl rfl) hp
  | priorityGet => exact absurd (.inr rfl) hp
  | run => exact accepted (.of_eq (e.run_host job s)) rfl
  | inactive =>
    obtain ⟨rs, effect⟩ := e.inactive_effect job s
    exact accepted effect.accepts effect.heldJobs_eq_nil
  | updateQueue => exact accepted (.of_eq (e.updateQueue_effect job s _).2.1) rfl
  | queueUpdated => exact accepted (.of_eq (e.queueUpdated_host job s)) rfl

theorem call_faithful (hk : e.KeepsAll) (topic : Topic) (args : Json) (job : Job)
    (s : JobStorage) : e.CallTold topic args job s := by
  obtain ⟨moved, -, -, told, moves⟩ := told_in_call hk topic args job s
  refine ⟨told.own, fun err ho => ?_, fun reply ho => ?_, ?_, heldJobs_acceptedIn args⟩
  · obtain ⟨reply, ho', -⟩ | ⟨err', bank, ho', once, last⟩ := told.failures
    · cases ho.symm.trans ho'
    · cases ho.symm.trans ho'
      exact ⟨bank, once, last⟩
  · obtain ⟨reply, -, none⟩ | ⟨err, bank, ho', -⟩ := told.failures
    · exact none
    · cases ho.symm.trans ho'
  · rw [told.rebinds]
    simp only [moves]

/-- A turn that keeps no event tells none. -/
theorem quiet_of_audit {t : Turn (Recorded H)} (hk : e.KeepsAll)
    (audit : (e.take t).audit = e.audit) :
    (e.take t).KeepsAll ∧ (e.take t).trail = e.trail ∧ e.toldIn t = [] := by
  have trail : (e.take t).trail = e.trail := by rw [Engine.trail, Engine.trail, audit]
  refine ⟨?_, trail, ?_⟩
  · rw [KeepsAll, audit]
    exact hk
  · rw [toldIn, trail, List.drop_length]

/-- A demand for new priorities makes no job wait, and lets none go on. -/
theorem acceptedIn_reprioritize (e : Engine (Recorded H)) :
    heldJobs (e.acceptedIn .reprioritize) = [] ∧
      releasedJobs (e.acceptedIn .reprioritize) = [] := by
  change heldJobs ((Scheduler.request e.host .reprioritizeAll).2.record.drop _) = [] ∧
    releasedJobs ((Scheduler.request e.host .reprioritizeAll).2.record.drop _) = []
  rcases hr : Scheduler.request e.host .reprioritizeAll with ⟨_ | err, host⟩
  · rw [Recorded.record_of_request hr, List.drop_left]
    exact ⟨rfl, rfl⟩
  · rw [Recorded.record_of_refused hr, List.drop_length]
    exact ⟨rfl, rfl⟩

/-- What a turn tells of held and released jobs is what was accepted, and the trail keeps it. -/
structure TurnTold (e : Engine (Recorded H)) (t : Turn (Recorded H)) : Prop where
  keeps : (e.take t).KeepsAll
  trail : (e.take t).trail = e.trail ++ e.toldIn t
  holds : jobsOf .hold (e.toldIn t) = heldJobs (e.acceptedIn t)
  releases : detailsOf .release (e.toldIn t) =
    (releasedJobs (e.acceptedIn t)).map (some ∘ releaseDetail)

theorem turn_faithful (hk : e.KeepsAll) (t : Turn (Recorded H)) :
    e.TurnTold t := by
  have quiet : (e.take t).audit = e.audit → heldJobs (e.acceptedIn t) = [] →
      releasedJobs (e.acceptedIn t) = [] → e.TurnTold t := by
    intro audit held released
    obtain ⟨keeps, trail, told⟩ := quiet_of_audit hk audit
    exact ⟨keeps, by rw [told, trail, List.append_nil], by rw [told, held]; rfl,
      by rw [told, released]; rfl⟩
  cases t with
  | feed kind rows =>
    have nothing : e.acceptedIn (.feed kind rows) = [] := List.drop_length
    exact quiet rfl (by rw [nothing]; rfl) (by rw [nothing]; rfl)
  | reprioritize => exact quiet rfl e.acceptedIn_reprioritize.1 e.acceptedIn_reprioritize.2
  | scheduler host => exact quiet rfl rfl rfl
  | call topic args job s =>
    obtain ⟨moved, keeps, trail, told, -⟩ := told_in_call hk topic args job s
    exact ⟨keeps, trail, told.holds, told.releases⟩

/-! ### Runs -/

/-- What turns tell of held and released jobs is what was accepted. -/
theorem turns_told (hk : e.KeepsAll) (ts : List (Turn (Recorded H))) :
    (e.takeAll ts).trail = e.trail ++ Run.history take toldIn e ts ∧
      jobsOf .hold (Run.history take toldIn e ts) = heldJobs (Run.history take acceptedIn e ts) ∧
      detailsOf .release (Run.history take toldIn e ts) =
        (releasedJobs (Run.history take acceptedIn e ts)).map (some ∘ releaseDetail) := by
  induction ts generalizing e with
  | nil => exact ⟨(List.append_nil _).symm, rfl, rfl⟩
  | cons t ts ih =>
    obtain ⟨keeps, trail, held, released⟩ := turn_faithful hk t
    obtain ⟨trail', held', released'⟩ := ih keeps
    refine ⟨?_, ?_, ?_⟩
    · rw [Run.history, ← List.append_assoc, ← trail]
      exact trail'
    · rw [Run.history, Run.history, jobsOf_append, held, held']
      exact List.filterMap_append.symm
    · rw [Run.history, Run.history, detailsOf_append, released, released', ← List.map_append]
      exact congrArg (List.map _) List.filterMap_append.symm

theorem keeps_takeAll (hk : e.KeepsAll) (ts : List (Turn (Recorded H))) :
    (e.takeAll ts).KeepsAll := by
  induction ts generalizing e with
  | nil => exact hk
  | cons t ts ih => exact ih (turn_faithful hk t).keeps

/-- The audit trail is true to whatever turns do, as long as it drops nothing. -/
theorem trail_faithful (hk : e.KeepsAll) (ts : List (Turn (Recorded H))) :
    e.TrailFaithful ts := by
  obtain ⟨trail, held, released⟩ := turns_told hk ts
  refine ⟨trail, ?_, ?_, held, fun js => ?_⟩
  · rintro pre topic args job s post -
    exact call_faithful (keeps_takeAll hk pre) topic args job s
  · rintro pre t post - other
    cases t with
    | feed | reprioritize | scheduler => exact (quiet_of_audit (keeps_takeAll hk pre) rfl).2.2
    | call topic args job s => exact absurd rfl (other topic args job s)
  · rw [released]
    -- a release names one job, so the details tell the jobs apart
    have injective : Function.Injective (some ∘ releaseDetail) := fun i j h =>
      releaseDetail_injective (Option.some.inj h)
    exact (injective.list_map.eq_iff).trans eq_comm

/-! ### A sample -/

namespace Sample

/-- An engine with a trail that drops nothing, over a scheduler that refuses the next change of
a specification. -/
def engine : Engine (Recorded Host) where
  config := .default
  host := { scheduler := Host.arm {} .updateJobspec }
  audit := some ⟨none, []⟩

/-- A job that names no bank is bound to a placeholder. Then the feed tells of its user's account,
whose one slot is given to another job. The first job is moved to that account and held, and the
change of its specification is refused. It is released when the other job leaves. -/
def turns : List (Turn (Recorded Host)) :=
  [.call .new .null (World.Sample.bankless 7) {}, .feed .accounts [World.Sample.record 1],
   .call .new .null (World.Sample.job 8) {},
   .call .depend .null (World.Sample.job 8)
     { binding := some { account := ⟨World.Sample.key, 0⟩, countedActive := true } },
   .call .priority .null (World.Sample.bankless 7)
     { binding := some { account := ⟨⟨1, Account.placeholderBank⟩, 0⟩ } },
   .call .inactive .null (World.Sample.job 8)
     { binding := some
        { account := ⟨World.Sample.key, 0⟩, countedActive := true, runReserved := true } }]

end Sample

/-- In the sample, a job is moved and held though its call fails, and is released later. -/
theorem sample_trail :
    Sample.engine.KeepsAll ∧
      (Sample.engine.takeAll Sample.turns).trail.map (fun ev => (ev.job, ev.action)) =
        [(7, .placeholder), (8, .accept), (7, .rebind), (7, .hold), (7, .fault), (8, .release)] ∧
      Sample.engine.TrailFaithful Sample.turns := by
  have keeps : Sample.engine.KeepsAll := ⟨⟨none, []⟩, rfl, rfl⟩
  exact ⟨keeps, by decide +kernel, trail_faithful keeps Sample.turns⟩

end Engine

end JobAdmission

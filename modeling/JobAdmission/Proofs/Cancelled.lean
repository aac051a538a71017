import JobAdmission.Proofs.AlikeWorlds
import JobAdmission.Proofs.Release

/-!
# A cancelled job leaves no trace

This module proves that a job which is held and leaves before it is released changes nothing for
anybody else (`World.Reached.cancelled_leaves_no_trace`): the run without the calls on it is a run
as well, answers all other calls alike, and ends with the same accounts. This is so where the
scheduler refuses nothing, the account that the job waits at has no limit on active jobs, to which
the job would count, and the counters of that account can follow the run with the job.

The two runs are compared event by event (`World.Obeys.sameBut`). The job is not released before it
leaves, as it would be free from then on (`World.Obeys.free`), but is still held when it leaves. So
it waits all the time (`World.Obeys.keepsAside`), and both runs release the same jobs.
-/

namespace JobAdmission

namespace World

variable {H : Type}

/-! ### Runs -/

section Runs

/-- The events without the calls on a job. -/
def without (x : JobId) (es : List (Event H)) : List (Event H) :=
  es.filter fun ev => decide (ev.job? ≠ some x)

variable [Scheduler H] {w w' : World H} {ev : Event H} {es : List (Event H)} {x : JobId}
  {k : AccountKey} {like : H → H → Prop}

/-- The other job that an event is a call on, and what it is answered. -/
def answersBut (x : JobId) (w : World H) : Event H → List (JobId × Except HandlerError Reply)
  | .call topic args job =>
    if job.id = x then [] else [(job.id, (w.step topic args job).outcome)]
  | .feed _ _ | .reprioritize | .scheduler _ => []

theorem answersBut_own (own : ev.job? = some x) : w.answersBut x ev = [] := by
  cases ev with
  | feed | reprioritize | scheduler => rfl
  | call topic args job => exact if_pos (Option.some.inj own)

/-- The host's order, where the scheduler refuses nothing and the counters of the account can tell
the number of its jobs, the job waits or is gone after the event, and the account that it is bound
to is given no limit on active jobs. -/
structure KeepsAside (x : JobId) (k : AccountKey) (w : World H) (ev : Event H) : Prop where
  order : w.HostOrder ev
  accepted : w.Accepted ev
  few : (w.after ev).load k < UInt32.size
  aside : (w.after ev).Aside x k
  unlimited : ∀ k', w.accountOf x = some k' → ∀ terms ∈ ev.granted k', terms.activeLimit = none

/-- Without the job, the same is answered in an event. -/
theorem SameBut.answers (h : w.SameBut like x w') (apart : Scheduler.Apart x like) (hs : w.Sound)
    (C : (w.scene k).Counted) (aside : w.Aside x k) (other : ev.job? ≠ some x)
    (now : KeepsAside x k w ev) : w'.answersBut x ev = w.answersBut x ev := by
  cases ev with
  | feed | reprioritize | scheduler => rfl
  | call topic args job =>
    have hj : job.id ≠ x := fun hx => other (congrArg some hx)
    have step := h.step apart hs C aside hj now.order now.accepted fun _ _ ha =>
      (hs.after now.order).notMem_released now.aside ha
    rw [answersBut, answersBut, if_neg hj, if_neg hj, step.outcome]

/-- A run that keeps a job aside goes alike without the calls on the job. -/
theorem Obeys.sameBut (h : w.Obeys (KeepsAside x k) es) (apart : Scheduler.Apart x like)
    (hs : w.Sound) (C : (w.scene k).Counted) (aside : w.Aside x k) (same : w.SameBut like x w') :
    w'.Obeys AcceptingOrder (without x es) ∧
      Run.history after (answersBut x) w' (without x es) = Run.history after (answersBut x) w es ∧
      (w.afterAll es).SameBut like x (w'.afterAll (without x es)) := by
  induction es generalizing w w' with
  | nil => exact ⟨trivial, rfl, same⟩
  | cons ev es ih =>
    obtain ⟨now, later⟩ := h
    have hs₁ := hs.after now.order
    have C₁ := hs.counted_after C now.order now.few
    by_cases own : ev.job? = some x
    · -- only the first run makes the call
      have skip : without x (ev :: es) = without x es := List.filter_cons_of_neg (by simp [own])
      have same₁ : (w.after ev).SameBut like x w' := by
        cases ev with
        | feed | reprioritize | scheduler => cases own
        | call topic args job =>
          obtain rfl : job.id = x := Option.some.inj own
          exact same.own apart hs C aside now.order now.accepted now.aside
      rw [skip, Run.history, answersBut_own own, List.nil_append]
      exact ih later hs₁ C₁ now.aside same₁
    · have take : without x (ev :: es) = ev :: without x es :=
        List.filter_cons_of_pos (by simp [own])
      have spared : ∀ k a, (w.after ev).account k = some a → x ∉ a.usage.gate.released :=
        fun _ _ ha => hs₁.notMem_released now.aside ha
      have order' := same.hostOrder own now.order
      have accepted' := same.accepted apart hs C aside own now.order now.accepted spared
      have same₁ := same.after apart hs C aside own now.order now.accepted spared now.unlimited
      obtain ⟨obeys, answers, last⟩ := ih later hs₁ C₁ now.aside same₁
      rw [take, Run.history, Run.history, same.answers apart hs C aside own now, answers]
      exact ⟨⟨⟨order', accepted'⟩, obeys⟩, rfl, last⟩

/-- A job that is free stays so. -/
theorem Obeys.free (h : w.Obeys AcceptingOrder es) (hs : w.Sound) (free : w.Free x) :
    (w.afterAll es).Free x := by
  have keep : ∀ (w : World H) ev, w.Sound ∧ w.Free x → w.AcceptingOrder ev →
      (w.after ev).Sound ∧ (w.after ev).Free x :=
    fun _ _ both h => ⟨both.1.after h.1, both.1.free_after h.1 both.2⟩
  exact (h.invariant keep ⟨hs, free⟩).2

/-- A job that left stays gone. -/
theorem Obeys.gone (h : w.Obeys AcceptingOrder es) (gone : w.Gone x) : (w.afterAll es).Gone x := by
  have keep : ∀ (w : World H) ev, w.Gone x → w.AcceptingOrder ev → (w.after ev).Gone x :=
    fun _ _ gone h => gone_after h.1 gone
  exact h.invariant keep gone

/-- A run after which an enlisted job is not free kept it aside all the time. -/
theorem Obeys.keepsAside (h : w.Obeys (LightOrder k AcceptingOrder) es) (hs : w.Sound)
    (enlisted : w.Enlisted x k) (waits : ¬ (w.afterAll es).Free x)
    (unlimited : ∀ terms ∈ es.flatMap (Event.granted k), terms.activeLimit = none) :
    w.Obeys (KeepsAside x k) es ∧ (w.afterAll es).Enlisted x k := by
  induction es generalizing w with
  | nil => exact ⟨trivial, enlisted⟩
  | cons ev es ih =>
    obtain ⟨⟨⟨order, accepted⟩, few⟩, later⟩ := h
    have hs₁ := hs.after order
    have accepting : (w.after ev).Obeys AcceptingOrder es := later.mono LightOrder.order
    have notFree : ¬ (w.after ev).Free x := fun free => waits (accepting.free hs₁ free)
    have enlisted₁ : (w.after ev).Enlisted x k :=
      (enlisted.after hs order).resolve_right fun leaves =>
        notFree (.inl (hs.gone_of_leaving order leaves))
    rw [List.flatMap_cons] at unlimited
    obtain ⟨obeys, last⟩ := ih later hs₁ enlisted₁ waits fun terms ht =>
      unlimited terms (List.mem_append_right _ ht)
    refine ⟨⟨⟨order, accepted, few, ⟨enlisted₁.real, .inr ⟨enlisted₁, notFree⟩⟩, ?_⟩, obeys⟩, last⟩
    intro k' bound terms ht
    obtain rfl : k = k' := Option.some.inj (enlisted.bound.symm.trans bound)
    exact unlimited terms (List.mem_append_left _ ht)

/-- A job that left stays aside. -/
theorem Obeys.keepsAside_of_gone (h : w.Obeys (LightOrder k AcceptingOrder) es) (hs : w.Sound)
    (real : ∃ a, w.account k = some a ∧ a.isPlaceholder = false) (gone : w.Gone x) :
    w.Obeys (KeepsAside x k) es := by
  induction es generalizing w with
  | nil => trivial
  | cons ev es ih =>
    obtain ⟨⟨⟨order, accepted⟩, few⟩, later⟩ := h
    have gone₁ := gone_after order gone
    have real₁ := real_after ev real
    refine ⟨⟨order, accepted, few, ⟨real₁, .inl gone₁⟩, ?_⟩, ih later (hs.after order) real₁ gone₁⟩
    intro k' bound
    cases bound.symm.trans gone.accountOf

omit [Scheduler H] in
/-- Where the job left, the worlds have the same accounts, but for the queue factor that an account
keeps. -/
theorem SameBut.account_eq (h : w.SameBut like x w') (hs : w.Sound) (gone : w.Gone x)
    (k : AccountKey) :
    (w'.account k).map (·.withQueueFactor 0) = (w.account k).map (·.withQueueFactor 0) := by
  cases ha : w.account k with
  | none => rw [World.account, h.engine.ledger.account?_eq_none.mpr ha]
  | some a =>
    obtain ⟨a', ha', same⟩ := h.engine.ledger.account? ha
    rw [surplus_of_gone gone] at same
    rw [World.account, ha']
    exact congrArg some (same.eq_of_notMem (hs.notMem_held_of_gone gone ha) 0)

/-- A job that is bound to a real account when it is announced, is held there and leaves before it
is released, leaves no trace, where the scheduler refuses nothing, the account has no limit on
active jobs meanwhile, and its counters can follow the run. The run without the calls on the job is
a run as well, in which the scheduler refuses nothing either. It answers all other calls alike, and
ends with the same accounts, but for the queue factor that they keep, and with a scheduler that
compares. -/
theorem Reached.cancelled_leaves_no_trace (h : w.Reached (LightOrder k HostOrder)) {job job' : Job}
    {args args' : Json} {mid post : List (Event H)} (apart : Scheduler.Apart job.id like)
    (run : w.Obeys (LightOrder k AcceptingOrder)
      (.call .new args job :: (mid ++ .call .inactive args' job' :: post)))
    (same : job'.id = job.id)
    (bound : (w.after (.call .new args job)).accountOf job.id = some k)
    (real : ∃ a ∈ (w.after (.call .new args job)).account k,
      a.isPlaceholder = false ∧ a.terms.activeLimit = none)
    (unlimited : ∀ terms ∈ mid.flatMap (Event.granted k), terms.activeLimit = none)
    (held : job.id ∈ ((w.afterAll (.call .new args job :: mid)).scene k).held) :
    let es := .call .new args job :: (mid ++ .call .inactive args' job' :: post)
    let rest := without job.id es
    w.Obeys AcceptingOrder rest ∧
      Run.history after (answersBut job.id) w rest = Run.history after (answersBut job.id) w es ∧
      (∀ k, ((w.afterAll rest).account k).map (·.withQueueFactor 0) =
        ((w.afterAll es).account k).map (·.withQueueFactor 0)) ∧
      like (w.afterAll es).engine.host (w.afterAll rest).engine.host := by
  intro es rest
  have reached := h.mono LightOrder.order
  obtain ⟨hs, C⟩ := h.counted fun _ _ order => order
  have hostOrder : ∀ (w : World H) ev, LightOrder k AcceptingOrder w ev → w.HostOrder ev :=
    fun w ev light => AcceptingOrder.hostOrder w ev light.1
  have sound : (w.afterAll es).Sound := (run.mono hostOrder).sound hs
  obtain ⟨⟨⟨order, accepted⟩, few⟩, later⟩ := run
  obtain ⟨running, ⟨⟨order', accepted'⟩, few'⟩, ending⟩ := obeys_append.mp later
  have hs₁ := hs.after order
  have C₁ := hs.counted_after C order few
  have hs₂ := (running.mono hostOrder).sound hs₁
  have hs₃ := hs₂.after order'
  have waits := hs₂.not_free_of_held held
  obtain ⟨a, there, real, limit⟩ := real
  obtain ⟨alike, enlisted⟩ :=
    hs.sameBut_new reached.banked apart order accepted bound there real limit
  have aside : (w.after (.call .new args job)).Aside job.id k :=
    ⟨enlisted.real, .inr ⟨enlisted, fun free =>
      waits ((running.mono LightOrder.order).free hs₁ free)⟩⟩
  obtain ⟨kept, enlisted₂⟩ := running.keepsAside hs₁ enlisted waits unlimited
  have gone : (((w.after (.call .new args job)).afterAll mid).after
      (.call .inactive args' job')).Gone job.id :=
    hs₂.gone_of_leaving order' (congrArg some same)
  have real₃ := real_after (.call .inactive args' job') enlisted₂.real
  have leaves : KeepsAside job.id k ((w.after (.call .new args job)).afterAll mid)
      (.call .inactive args' job') :=
    ⟨order', accepted', few', ⟨real₃, .inl gone⟩, by simp [Event.granted]⟩
  have all : (w.after (.call .new args job)).Obeys (KeepsAside job.id k)
      (mid ++ .call .inactive args' job' :: post) :=
    obeys_append.mpr ⟨kept, leaves, Obeys.keepsAside_of_gone ending hs₃ real₃ gone⟩
  obtain ⟨obeys, answers, last⟩ := all.sameBut apart hs₁ C₁ aside alike
  have skip : rest = without job.id (mid ++ .call .inactive args' job' :: post) :=
    List.filter_cons_of_neg (by simp [Event.job?])
  have accepting : (((w.after (.call .new args job)).afterAll mid).after
      (.call .inactive args' job')).Obeys AcceptingOrder post := ending.mono LightOrder.order
  have absent : (w.afterAll es).Gone job.id := by
    show ((w.after (.call .new args job)).afterAll
      (mid ++ .call .inactive args' job' :: post)).Gone job.id
    rw [afterAll_append]
    exact accepting.gone gone
  rw [skip]
  refine ⟨obeys, ?_, last.account_eq sound absent, last.engine.host⟩
  rw [answers, Run.history, answersBut_own (by rfl), List.nil_append]

namespace Sample

/-- Job 7 runs on the one slot of the account. -/
def occupied : World Host := start.afterAll
  [.feed .accounts [record 1], .call .new .null (job 7), .call .depend .null (job 7),
   .call .priority .null (job 7), .call .run .null (job 7)]

/-- Job 8 is held, and job 9 is held behind it. -/
def queueing : List (Event Host) :=
  [.call .depend .null (job 8), .call .new .null (job 9), .call .depend .null (job 9)]

/-- Job 7 leaves, so that job 9 is released and runs. -/
def succeeding : List (Event Host) :=
  [.call .inactive .null { job 7 with allocObserved := true }, .call .priority .null (job 9),
   .call .run .null (job 9)]

/-- Job 8 is announced, waits and leaves before job 7 does. -/
def cancelling : List (Event Host) :=
  .call .new .null (job 8) :: (queueing ++ .call .inactive .null (job 8) :: succeeding)

end Sample

/-- In the sample, job 9 is held and released without job 8 as well. -/
theorem sample_cancelled :
    Run.history after (answersBut 8) Sample.occupied (without 8 Sample.cancelling) =
        Run.history after (answersBut 8) Sample.occupied Sample.cancelling ∧
      ((Sample.occupied.afterAll (without 8 Sample.cancelling)).account Sample.key).map
          (·.withQueueFactor 0) =
        ((Sample.occupied.afterAll Sample.cancelling).account Sample.key).map
          (·.withQueueFactor 0) ∧
      Host.LikeBut 8 (Sample.occupied.afterAll Sample.cancelling).engine.host
        (Sample.occupied.afterAll (without 8 Sample.cancelling)).engine.host := by
  have reached : Sample.occupied.Reached (LightOrder Sample.key HostOrder) :=
    ⟨Config.default, {}, none, _, by decide +kernel, rfl⟩
  have run : Sample.occupied.Obeys (LightOrder Sample.key AcceptingOrder)
      (.call .new .null (Sample.job 8) ::
        (Sample.queueing ++ .call .inactive .null (Sample.job 8) :: Sample.succeeding)) := by
    decide +kernel
  obtain ⟨-, answers, accounts, host⟩ := reached.cancelled_leaves_no_trace
    (Host.apart 8) run rfl (by decide +kernel) (by decide +kernel) (by decide +kernel)
    (by decide +kernel)
  exact ⟨answers, accounts Sample.key, host⟩

end Runs

end World

end JobAdmission

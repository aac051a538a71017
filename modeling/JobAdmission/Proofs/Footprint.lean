import JobAdmission.Proofs.Confinement
import JobAdmission.Proofs.Permanence
import JobAdmission.Proofs.Turns

/-!
# The footprint of a call

This module says all that a call on a job may change (`World.Footprint`), and proves that no call
changes more (`World.Reached.footprint`). The host has to promise one thing only: that it announces
no job twice (`World.AnnouncesOnce`). Besides, calls may come in any order, and on jobs that never
came or left.

A step is confined to the accounts of its job (`Engine.stepOf_confined`) as long as no other gate
knows the job, which is kept along runs (`World.Housed`). That every user with an account has a
default bank is kept, too, so a default bank is only set together with the first account of its
user.
-/

namespace JobAdmission

namespace World

variable {H : Type} [Scheduler H] {w : World H} {ev : Event H} {topic : Topic} {args : Json}
  {job : Job} {k : AccountKey}

/-- No job is announced twice. -/
def AnnouncesOnce (w : World H) : Event H → Prop
  | .call .new _ job => job.id ∉ w.arrived
  | _ => True

instance (w : World H) : DecidablePred w.AnnouncesOnce
  | .call .new _ job => inferInstanceAs (Decidable (job.id ∉ w.arrived))
  | .feed _ _ | .reprioritize | .scheduler _ | .call .validate _ _ | .call .depend _ _
  | .call .priority _ _ | .call .priorityGet _ _ | .call .run _ _ | .call .inactive _ _
  | .call .updateQueue _ _ | .call .queueUpdated _ _ => .isTrue trivial

/-- Every job is known only to the gate of the account that it is bound to, and a live job was
announced. -/
structure Housed (w : World H) : Prop where
  known : ∀ j l, w.live j = some l → j ∈ w.arrived
  houses : ∀ j, w.engine.ledger.Houses j (w.storage j)

omit [Scheduler H] in
theorem not_live_of_new (hw : w.Housed) (h : w.AnnouncesOnce (.call .new args job)) :
    w.live job.id = none := not_live_of_known hw.known h

/-- What a step does that a call on the world makes is confined. -/
theorem Housed.confined (hw : w.Housed) (h : w.AnnouncesOnce (.call topic args job)) :
    w.engine.ledger.Confined w.engine.config.placeholderFairshare job (w.storage job.id)
      (w.step topic args job).engine.ledger (w.step topic args job).storage := by
  refine Engine.stepOf_confined (hw.houses job.id) topic args ?_
  rintro rfl
  rw [storage_of_not_live (not_live_of_new hw h)]

/-- What the step leaves the job bound to, it is bound to after the call, or was before. -/
theorem Housed.bound_after (hw : w.Housed) (h : w.AnnouncesOnce (.call topic args job))
    (hk : (w.step topic args job).storage.account?.map Handle.key = some k) :
    w.accountOf job.id = some k ∨ (w.after (.call topic args job)).accountOf job.id = some k := by
  by_cases ht : topic = .inactive
  · subst ht
    obtain ⟨rs, effect⟩ := w.engine.inactive_effect job (w.storage job.id)
    rcases effect.binding_cases with same | gone
    · left
      rw [← hk, accountOf_eq]
      exact congrArg (·.account?.map Handle.key) same.symm
    · have unbound : (w.step .inactive args job).storage.account? = none :=
        congrArg (·.map JobBinding.account) gone
      simp [unbound] at hk
  · right
    rw [← hk, accountOf_eq, handleOf,
      storage_after_call ht fun hnew => not_live_of_new hw (hnew ▸ h)]
    rfl

theorem Housed.after_call (hw : w.Housed) (h : w.AnnouncesOnce (.call topic args job)) (j : JobId) :
    (w.after (.call topic args job)).engine.ledger.Houses j
      ((w.after (.call topic args job)).storage j) := by
  have confined := hw.confined h
  by_cases hj : j = job.id
  · subst hj
    refine ⟨fun home a ha hknows => ?_, confined.houses.standIns⟩
    by_cases ht : topic = .inactive
    · subst ht
      obtain ⟨rs, effect⟩ := w.engine.inactive_effect job (w.storage job.id)
      exact absurd hknows (effect.forgets (hw.houses job.id) home a ha)
    · have same : (w.after (.call topic args job)).storage job.id =
          (w.step topic args job).storage :=
        storage_after_call ht fun hnew => not_live_of_new hw (hnew ▸ h)
      rw [same]
      exact confined.houses.own home a ha hknows
  · have same : (w.after (.call topic args job)).storage j = w.storage j := by
      rw [storage, storage, live_after_of_ne]
      rintro ⟨⟩
      exact hj rfl
    rw [same]
    refine ⟨fun home a ha hknows => ?_, confined.houses.standIns⟩
    obtain ⟨a₀, ha₀, hknows⟩ := confined.others home a ha j hj hknows
    exact (hw.houses j).own home a₀ ha₀ hknows

theorem Housed.after (hw : w.Housed) (h : w.AnnouncesOnce ev) : (w.after ev).Housed where
  known := known_after hw.known
  houses j := by
    cases ev with
    | reprioritize | scheduler => exact hw.houses j
    | call topic args job => exact hw.after_call h j
    | feed kind rows =>
      cases kind with
      | accounts => exact (hw.houses j).updates (accepted AccountRecord.readUpdate rows)
      | queues | projects => exact ⟨(hw.houses j).own, (hw.houses j).standIns⟩

omit [Scheduler H] in
theorem start_housed (config : Config) (host : H) (audit : Option AuditTrail) :
    (start config host audit).Housed where
  known _ _ hl := by cases hl
  houses j := by
    have none : ∀ (h : Handle) (a : Account),
        (start config host audit).engine.ledger.objects[h]? ≠ some a := by
      intro h a ha
      cases Std.ExtTreeMap.getElem?_empty.symm.trans ha
    exact ⟨fun h a ha => absurd ha (none h a), fun h a ha => absurd ha (none h a)⟩

theorem Reached.housed (h : w.Reached AnnouncesOnce) : w.Housed :=
  h.invariant (I := Housed) start_housed fun _ _ hw => hw.after

/-! ### The footprint -/

/-- What a call on a job may change. -/
structure Footprint (w : World H) (topic : Topic) (args : Json) (job : Job) : Prop where
  /-- Nothing that is kept for another job changes. -/
  storages : ∀ j, j ≠ job.id →
    (w.after (.call topic args job)).live j = w.live j ∧
      (w.after (.call topic args job)).storage j = w.storage j
  /-- No queue changes. -/
  queues : (w.after (.call topic args job)).engine.ledger.queues = w.engine.ledger.queues
  /-- No project changes. -/
  projects : (w.after (.call topic args job)).engine.ledger.projects = w.engine.ledger.projects
  /-- An account changes only if the job is bound to it before or after the call, or if it is the
  placeholder of the user, which is created. -/
  accounts : ∀ k, (w.after (.call topic args job)).account k = w.account k ∨
    w.accountOf job.id = some k ∨ (w.after (.call topic args job)).accountOf job.id = some k ∨
      k = ⟨job.userid, Account.placeholderBank⟩ ∧
        w.engine.ledger.Creates w.engine.config.placeholderFairshare job.userid
          (w.after (.call topic args job)).engine.ledger
  /-- No default bank changes but that of a user who had none, who is given the placeholders' bank
  together with a placeholder. -/
  defaults : ∀ u, (w.after (.call topic args job)).engine.ledger.defaultBanks[u]? =
      w.engine.ledger.defaultBanks[u]? ∨
    u = job.userid ∧ w.engine.ledger.defaultBanks[u]? = none ∧
      (w.after (.call topic args job)).engine.ledger.defaultBanks[u]? =
        some Account.placeholderBank ∧
      w.engine.ledger.Creates w.engine.config.placeholderFairshare job.userid
        (w.after (.call topic args job)).engine.ledger
  /-- An account keeps its key, its kind and its terms: at most what its jobs take up changes. -/
  granted : ∀ k a, w.account k = some a →
    ∃ a', (w.after (.call topic args job)).account k = some a' ∧ a.UsedAs a'
  /-- Where a job is validated or another queue is proposed, no account that is there changes, and
  nothing is asked of the scheduler. -/
  quiet : topic = .validate ∨ topic = .updateQueue →
    (∀ k a, w.account k = some a → (w.after (.call topic args job)).account k = some a) ∧
      (w.after (.call topic args job)).engine.host = w.engine.host

/-- Validation and the proposal of another queue leave accounts and the scheduler alone. -/
theorem quiet_call (hq : topic = .validate ∨ topic = .updateQueue) :
    (∀ k a, w.account k = some a → (w.after (.call topic args job)).account k = some a) ∧
      (w.after (.call topic args job)).engine.host = w.engine.host := by
  rcases hq with rfl | rfl
  · refine ⟨fun k a ha => ?_, w.engine.validate_host job _⟩
    change (w.engine.validate job (w.storage job.id)).engine.ledger.account? k = some a
    rcases w.engine.validate_ledger job (w.storage job.id) with same | created
    · rw [same]
      exact ha
    · rw [created, Ledger.account?_ensurePlaceholder, if_neg]
      · exact ha
      · rintro ⟨-, hnone⟩
        cases hnone.symm.trans ha
  · obtain ⟨ledger, host, -⟩ :=
      w.engine.updateQueue_effect job (w.storage job.id) (Engine.proposedQueue args)
    refine ⟨fun k a ha => ?_, host⟩
    change (w.engine.updateQueue job (w.storage job.id) _).engine.ledger.account? k = some a
    rw [ledger]
    exact ha

/-- In a world that is reached without a job being announced twice, every call that does not
announce one again has this footprint. -/
theorem Reached.footprint (h : w.Reached AnnouncesOnce)
    (ha : w.AnnouncesOnce (.call topic args job)) : w.Footprint topic args job := by
  have confined := h.housed.confined ha
  have grows : w.engine.ledger.GrowsTo (w.after (.call topic args job)).engine.ledger :=
    growsTo_after w rfl
  refine ⟨fun j hj => ?_, grows.queues, grows.projects, fun k => ?_, fun u => ?_, grows.stays,
    quiet_call⟩
  · have other : (Event.call topic args job : Event H).job? ≠ some j := by
      rintro ⟨⟩
      exact hj rfl
    rw [storage, storage, live_after_of_ne other]
    exact ⟨rfl, rfl⟩
  · rcases confined.account? k with same | before | after | created
    · exact .inl same
    · exact .inr (.inl ((accountOf_eq ..).trans before))
    · exact .inr ((h.housed.bound_after ha after).imp_right .inl)
    · exact .inr (.inr (.inr created))
  · rcases confined.defaults with same | ⟨inserted, created⟩
    · exact .inl (congrArg (·[u]?) same)
    · have after : (w.after (.call topic args job)).engine.ledger.defaultBanks[u]? =
          (w.engine.ledger.ensurePlaceholder job.userid
            w.engine.config.placeholderFairshare).defaultBanks[u]? :=
        congrArg (·[u]?) inserted
      rw [after, Ledger.getElem?_defaultBanks_ensurePlaceholder]
      split
      · rename_i hu
        obtain ⟨rfl, none⟩ := hu
        refine .inr ⟨rfl, none, rfl, created ?_⟩
        -- a user without a default bank has no account
        by_contra hsome
        obtain ⟨p, hp⟩ := Option.ne_none_iff_exists'.mp hsome
        obtain ⟨bank, hd⟩ := h.banked _ _ hp
        cases none.symm.trans hd
      · exact .inl rfl

/-! ### A sample -/

namespace Sample

/-- A job of a user whom the feed did not tell yet is bound to a placeholder. Then the feed tells
of the user's account, whose slot another job takes, and a queue is proposed for a job that never
came. -/
def early : List (Event Host) :=
  [.call .new .null (Sample.bankless 7), .feed .accounts [record 1],
   .call .new .null (Sample.job 8), .call .depend .null (Sample.job 8),
   .call .updateQueue .null (Sample.job 9)]

end Sample

/-- In the sample, the job is moved to its account by a call that changes nothing else. -/
theorem sample_footprint :
    (Sample.start.afterAll Sample.early).Reached AnnouncesOnce ∧
      (Sample.start.afterAll Sample.early).AnnouncesOnce
        (.call .priority .null (Sample.bankless 7)) ∧
      ((Sample.start.afterAll Sample.early).after
        (.call .priority .null (Sample.bankless 7))).accountOf 7 = some Sample.key ∧
      (Sample.start.afterAll Sample.early).Footprint .priority .null (Sample.bankless 7) := by
  have reached : (Sample.start.afterAll Sample.early).Reached AnnouncesOnce :=
    ⟨Config.default, {}, none, Sample.early, by decide +kernel, rfl⟩
  exact ⟨reached, trivial, by decide +kernel, reached.footprint trivial⟩

end World

end JobAdmission

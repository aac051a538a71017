import JobAdmission.Proofs.Binding
import JobAdmission.Proofs.Counters

/-!
# Jobs with a priority

This module proves that a job which is given its priority is bound to a real account and
counted there, once (`World.Reached.accounted`). A real account counts each of its jobs: a
new one when it is enrolled, and one that waited at a placeholder when it is moved
(`Move.counts`). The feed can also tell of a placeholder itself, which becomes real with
the jobs that are bound to it, and nothing counts these. So the theorem is about runs in
which that does not happen to the job (`World.KeepingOrder`), and fails of others
(`World.uncounted_after_taking_over`).
-/

namespace JobAdmission

variable {k : AccountKey} {j i : JobId} {refusing : Bool} {rs : List HostRequest} {a a' : Account}
  {m m' : Option Member}

/-! ### Jobs of real accounts -/

/-- A call on a job of a real account leaves it counted, or counts it. -/
theorem Move.counts (h : Move k j refusing rs a m a' m') (real : a.isPlaceholder = false)
    (hm : ∀ n, m = some n → n.binding.countedActive = true) :
    ∀ n, m' = some n → n.binding.countedActive = true := by
  rintro n ⟨⟩
  cases h with
  | sit hp | wave hp => simp [real] at hp
  | enroll | moveIn | moveInHeld => rfl
  | proceed | hold | refuse | prioritize | settle | start =>
    have before := hm _ rfl
    exact before

namespace Scene

variable {s s' : Scene} {granted : List Terms}

/-- If the account is real and the job is bound to it, then it counts the job. -/
def Counts (s : Scene) (i : JobId) : Prop :=
  ∀ a, s.account = some a → a.isPlaceholder = false →
    ∀ n, s.member i = some n → n.binding.countedActive = true

/-- A real account counts a job whatever happens, unless the feed makes it of a placeholder
with the job. -/
theorem Step.counts (h : Scene.Step k refusing granted rs s s') (hs : s.Sound k)
    (kept : granted ≠ [] → ∀ a n, s.account = some a → s.member i = some n →
      a.isPlaceholder = false) (C : s.Counts i) : s'.Counts i := by
  intro a ha real n hn
  cases h with
  | told hlast =>
    obtain ⟨a₀, ha₀, -⟩ := hs.housed i n hn
    have told : granted ≠ [] := fun hnil => by simp [hnil] at hlast
    exact C a₀ ha₀ (kept told a₀ n ha₀ hn) n hn
  | quiet => exact C a ha real n hn
  | found | foundFor =>
    cases ha
    cases real
  | @move _ S j rs a₀ a' m' _ _ ha₀ h =>
    cases ha
    have real₀ : a₀.isPlaceholder = false := by
      rwa [Account.isPlaceholder, ← h.frame.2.1]
    have counted := C a₀ ha₀ real₀
    by_cases hij : i = j
    · subst hij
      exact h.counts real₀ counted n (by simpa using hn)
    · exact counted n (by simpa [hij] using hn)

end Scene

/-! ### Runs that keep placeholders -/

namespace World

variable {H : Type} {w : World H}

/-- In this event, the feed tells of the placeholder that the job is bound to. -/
def TakesOver (w : World H) (j : JobId) (ev : Event H) : Prop :=
  ∃ k ∈ w.accountOf j, ev.granted k ≠ [] ∧ ∃ a ∈ w.account k, a.isPlaceholder = true

instance (w : World H) (j : JobId) : DecidablePred (w.TakesOver j) := fun ev =>
  inferInstanceAs (Decidable (∃ k ∈ w.accountOf j, ev.granted k ≠ [] ∧
    ∃ a ∈ w.account k, a.isPlaceholder = true))

variable [Scheduler H]

/-- The job is bound to a real account and says of itself that it is counted as active, and it is
one of the jobs that make up the account's counter, which tells their number in a run that it can
follow. -/
def Accounted (w : World H) (j : JobId) : Prop :=
  ∃ b a, (w.storage j).binding = some b ∧ w.engine.ledger.objects[b.account]? = some a ∧
    a.isPlaceholder = false ∧ b.countedActive = true ∧
    j ∈ w.boundJobs b.account.key (·.countedActive) ∧
    (w.Reached (LightOrder b.account.key HostOrder) →
      a.usage.active.toNat = (w.boundJobs b.account.key (·.countedActive)).card)

/-- A job of a real account that counts it is accounted for. -/
theorem Sound.accounted_of_counts (hs : w.Sound) (C : ∀ k, (w.scene k).Counts j) {b : JobBinding}
    (hb : (w.storage j).binding = some b) (ha : w.engine.ledger.objects[b.account]? = some a)
    (real : a.isPlaceholder = false) : w.Accounted j := by
  cases hl : w.live j with
  | none => simp [storage, hl] at hb
  | some l =>
    rw [storage_of_live hl] at hb
    have there := (hs.bound hl (Engine.boundAccount_eq_some.mpr ⟨hb, ha⟩)).2
    have counted := C b.account.key a there real _ (scene_member_of_binding hl hb)
    refine ⟨b, a, ?_, ha, real, counted, ?_, fun light => ?_⟩
    · rw [storage_of_live hl, hb]
    · exact (mem_boundJobs hs.known).mpr ⟨l, b, hl, hb, rfl, counted⟩
    · obtain ⟨-, C⟩ := light.counted fun _ _ order => order
      exact (hs.exact_of_counted C there).active

variable {topic : Topic} {args : Json} {job : Job} {ev : Event H}

/-- The host's order, where the feed does not tell of a placeholder that the job is bound to. -/
def KeepingOrder (j : JobId) (w : World H) (ev : Event H) : Prop :=
  w.HostOrder ev ∧ ¬ w.TakesOver j ev

instance (j : JobId) (w : World H) : DecidablePred (KeepingOrder j w) := fun ev =>
  inferInstanceAs (Decidable (w.HostOrder ev ∧ ¬ w.TakesOver j ev))

theorem Sound.counts_after (hs : w.Sound) (h : KeepingOrder j w ev)
    (C : ∀ k, (w.scene k).Counts j) (k : AccountKey) : ((w.after ev).scene k).Counts j := by
  obtain ⟨rs, step⟩ := hs.scene_step h.1 k
  refine step.counts (hs.scenes k) (fun told a n ha hn => ?_) (C k)
  by_contra hp
  exact h.2 ⟨k, accountOf_of_member hn, told, a, ha, by simpa using hp⟩

/-- A job is counted at a real account in every world that such a run leads to. -/
theorem Reached.counts (h : w.Reached (KeepingOrder j)) :
    w.Sound ∧ ∀ k, (w.scene k).Counts j := by
  refine h.invariant (I := fun w => w.Sound ∧ ∀ k, (w.scene k).Counts j) ?_ ?_
  · intro config host audit
    refine ⟨start_sound config host audit, fun k a _ _ n hn => ?_⟩
    cases hn
  · rintro w ev ⟨hs, C⟩ h
    exact ⟨hs.after h.1, hs.counts_after h C⟩

/-! ### Priorities -/

/-- A job that is given its priority is bound to a real account, and counted there once. -/
theorem Reached.accounted (h : w.Reached (KeepingOrder job.id))
    (due : w.HostOrder (.call topic args job)) {value : Int64}
    (hv : (w.step topic args job).outcome = .ok (.priority value)) :
    (w.after (.call topic args job)).Accounted job.id := by
  obtain ⟨hs, C⟩ := h.counts
  have next : KeepingOrder job.id w (.call topic args job) := by
    refine ⟨due, ?_⟩
    rintro ⟨_, _, told, _⟩
    exact told rfl
  have ht := (priority_of_value hv).1
  have live : ∃ l, w.live job.id = some l := by
    rcases ht with rfl | rfl <;> exact due.imp fun l hl => hl.1
  obtain ⟨l, hl⟩ := live
  obtain ⟨b, a, hb, ha, real⟩ := real_after_of_value hl hv
  exact (hs.after due).accounted_of_counts (hs.counts_after next C) hb ha real

/-! ### Placeholders that are taken over -/

namespace Sample

/-- Job 7 waits at a placeholder when a record tells of an account of its user. -/
def telling (bank : String) : List (Event Host) :=
  [.call .new .null (Sample.job 7), .call .depend .null (Sample.job 7),
   .feed .accounts [recordIn bank 0]]

/-- The world after that. -/
def told (bank : String) : World Host := start.afterAll (telling bank)

/-- Job 7 asks for its priority. -/
def asking : Event Host := .call .priority .null (Sample.job 7)

end Sample

/-- In the sample, the record tells of the account that the job names, and the job is moved to it
when it asks for its priority. -/
theorem sample_accounted :
    (Sample.told Sample.key.bank).Reached (KeepingOrder 7) ∧
      (Sample.told Sample.key.bank).HostOrder Sample.asking ∧
      ((Sample.told Sample.key.bank).step .priority .null (Sample.job 7)).outcome =
        .ok (.priority 50000) ∧
      ((Sample.told Sample.key.bank).after Sample.asking).Accounted 7 ∧
      ((Sample.told Sample.key.bank).after Sample.asking).Reached
        (LightOrder Sample.key HostOrder) := by
  have reached : (Sample.told Sample.key.bank).Reached (KeepingOrder 7) :=
    ⟨Config.default, {}, none, Sample.telling Sample.key.bank, by decide +kernel, rfl⟩
  have due : (Sample.told Sample.key.bank).HostOrder Sample.asking := by decide +kernel
  have value : ((Sample.told Sample.key.bank).step .priority .null (Sample.job 7)).outcome =
      .ok (.priority 50000) := by
    decide +kernel
  have light : ((Sample.told Sample.key.bank).after Sample.asking).Reached
      (LightOrder Sample.key HostOrder) :=
    ⟨Config.default, {}, none, Sample.telling Sample.key.bank ++ [Sample.asking],
      by decide +kernel, afterAll_append _ _ _⟩
  exact ⟨reached, due, value, reached.accounted due value, light⟩

/-- If the record tells of the placeholder's own bank, the placeholder becomes the job's real
account. The job is given its priority there, and is not counted. -/
theorem uncounted_after_taking_over :
    (Sample.told Account.placeholderBank).Reached HostOrder ∧
      (Sample.told Account.placeholderBank).HostOrder Sample.asking ∧
      ((Sample.told Account.placeholderBank).step .priority .null (Sample.job 7)).outcome =
        .ok (.priority 50000) ∧
      ¬ ((Sample.told Account.placeholderBank).after Sample.asking).Accounted 7 := by
  have reached : (Sample.told Account.placeholderBank).Reached HostOrder :=
    ⟨Config.default, {}, none, Sample.telling Account.placeholderBank, by decide +kernel, rfl⟩
  have due : (Sample.told Account.placeholderBank).HostOrder Sample.asking := by decide +kernel
  have value : ((Sample.told Account.placeholderBank).step .priority .null
      (Sample.job 7)).outcome = .ok (.priority 50000) := by
    decide +kernel
  have uncounted : (((Sample.told Account.placeholderBank).after
      Sample.asking).storage 7).binding.map (·.countedActive) = some false := by
    decide +kernel
  refine ⟨reached, due, value, ?_⟩
  rintro ⟨b, a, hb, -, -, counted, -⟩
  simp [hb, counted] at uncounted

end World

end JobAdmission

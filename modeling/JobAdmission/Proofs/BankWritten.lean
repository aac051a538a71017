import JobAdmission.Proofs.Binding
import JobAdmission.Proofs.Release

/-!
# Banks that are written back

A job that names no bank is charged to its user's default bank, and when it comes to its real
account, the bank of that account is to be written into its specification. This module proves
that it is, before the job is given its priority, in every run in which the scheduler does not
refuse that very request (`World.bank_written`), whatever else it refuses and however often
the job is announced or asks. If the scheduler does refuse it, the job is bound to its account
all the same, and no later call asks for its bank again (`World.bank_lost`): a new announcement
finds the job bound, and so does its request for a priority.

Nor is the bank written where the feed tells of an account in the placeholders' bank: a job
that waits there is bound to a real account then without having come to it.
-/

namespace JobAdmission

/-- The job that is announced in an event. -/
def Event.announced? {H : Type} : Event H → Option Job
  | .call .new _ job => some job
  | _ => none

namespace World

variable {H : Type} [Scheduler H] {w : World H} {ev : Event H} {j : JobId} {k : AccountKey}
  {topic : Topic} {args : Json} {job : Job} {l l' : LiveJob} {a : Account}

/-! ### Announcements that are made again -/

/-- The host's order, where a job can be announced again before it comes to the throttle. -/
def RetryingOrder (w : World H) (ev : Event H) : Prop :=
  w.HostOrder ev ∨ ∃ job ∈ ev.announced?, ∃ l ∈ w.live job.id,
    l.phase = .fresh ∧ l.userid = job.userid ∧ l.bank = job.bank

instance (w : World H) : DecidablePred w.RetryingOrder := fun ev =>
  inferInstanceAs (Decidable (w.HostOrder ev ∨ ∃ job ∈ ev.announced?, ∃ l ∈ w.live job.id,
    l.phase = .fresh ∧ l.userid = job.userid ∧ l.bank = job.bank))

/-- A job that is live after a call on it has the user and the bank that the call tells, unless
it was only validated. -/
theorem RetryingOrder.user_after (h : w.RetryingOrder (.call topic args job))
    (known : ∀ j l, w.live j = some l → j ∈ w.arrived) (ht : topic ≠ .validate)
    (hl' : (w.after (.call topic args job)).live job.id = some l') :
    l'.userid = job.userid ∧ l'.bank = job.bank := by
  cases hl : w.live job.id with
  | none =>
    rw [live_after_call] at hl'
    unfold liveAfter at hl'
    rw [hl] at hl'
    split at hl'
    · exact absurd rfl ht
    · cases hl'
    · cases hl'
      exact ⟨rfl, rfl⟩
    · cases hl'
  | some l =>
    have told : l.userid = job.userid ∧ l.bank = job.bank := by
      rcases h with h | ⟨job', hjob', l₀, hl₀, -, user⟩
      · cases topic with
        | validate => exact absurd rfl ht
        | new => exact absurd (known job.id l hl) h
        | depend | priority | priorityGet | run | inactive | updateQueue | queueUpdated =>
          obtain ⟨l₀, hl₀, due⟩ := h
          cases hl.symm.trans hl₀
          exact ⟨due.userid, due.bank⟩
      · cases topic with
        | new =>
          cases hjob'
          cases hl.symm.trans hl₀
          exact user
        | validate | depend | priority | priorityGet | run | inactive | updateQueue
        | queueUpdated => cases hjob'
    obtain ⟨hu, hb⟩ := user_of_live_after hl hl'
    exact ⟨hu.trans told.1, hb.trans told.2⟩

/-! ### What fits together -/

/-- What is kept fits together: whoever holds an account finds it under its key, placeholders
are in their own bank, live jobs were announced, and a job is bound to an account that is there and
is its user's. -/
structure Coherent (w : World H) : Prop where
  keyed : w.engine.ledger.Keyed
  standIns : ∀ k a, w.account k = some a → a.isPlaceholder = true →
    k.bank = Account.placeholderBank
  known : ∀ j l, w.live j = some l → j ∈ w.arrived
  housed : ∀ j k, w.accountOf j = some k → ∃ a, w.account k = some a
  owned : ∀ j l k, w.live j = some l → w.accountOf j = some k → k.userid = l.userid

omit [Scheduler H] in
theorem start_coherent (config : Config) (host : H) (audit : Option AuditTrail) :
    (start config host audit).Coherent := by
  constructor
  · intro k a ha
    cases (account_start config host audit k).symm.trans ha
  · intro k a ha
    cases (account_start config host audit k).symm.trans ha
  · intro j l hl
    cases hl
  · intro j k hk
    cases hk
  · intro j l k hl
    cases hl

omit [Scheduler H] in
theorem exists_live_of_accountOf (hk : w.accountOf j = some k) : ∃ l, w.live j = some l := by
  cases hl : w.live j with
  | none => simp [accountOf, storage, hl] at hk
  | some l => exact ⟨l, rfl⟩

/-- A job comes to an account that is there and is its user's. -/
theorem Coherent.home_of_accountOf (hc : w.Coherent) (h : w.RetryingOrder ev)
    (hk : (w.after ev).accountOf j = some k) (hne : w.accountOf j ≠ some k) :
    (∃ a, (w.after ev).account k = some a) ∧
      ∀ l, (w.after ev).live j = some l → k.userid = l.userid := by
  obtain ⟨topic, args, job, rfl, rfl, ht, hu, there⟩ := World.home_of_accountOf hk hne
  -- the call tells the user of the account and of the job
  exact ⟨there, fun l hl => hu.trans (h.user_after hc.known ht hl).1.symm⟩

/-- An event keeps together what fits together. -/
theorem Coherent.after (hc : w.Coherent) (h : w.RetryingOrder ev) : (w.after ev).Coherent where
  keyed := keyed_after hc.keyed
  standIns := standIns_after hc.standIns
  known := known_after hc.known
  housed j k hk := by
    by_cases hbefore : w.accountOf j = some k
    · obtain ⟨a, ha⟩ := hc.housed j k hbefore
      exact (exists_account_after ha).imp fun _ h => h.1
    · exact (hc.home_of_accountOf h hk hbefore).1
  owned j l k hl hk := by
    by_cases hbefore : w.accountOf j = some k
    · obtain ⟨l₀, hl₀⟩ := exists_live_of_accountOf hbefore
      rw [(user_of_live_after hl₀ hl).1]
      exact hc.owned j l₀ k hl₀ hbefore
    · exact (hc.home_of_accountOf h hk hbefore).2 l hl

/-! ### Where a bank is asked for -/

section Asked

variable {ps : List JobspecPatch} {rs : List HostRequest} {name : String}

omit [Scheduler H] in
theorem bank_mem_givenPatches {byDefault : Bool} :
    .bank name ∈ Engine.givenPatches job a byDefault ↔ byDefault = true ∧ name = a.key.bank := by
  unfold Engine.givenPatches
  cases byDefault <;> cases job.project <;> cases a.terms.defaultProject <;> simp

omit [Scheduler H] in
theorem bank_mem_bankPatches {bank : String} :
    .bank name ∈ Engine.bankPatches job bank ↔ job.bank = none ∧ name = bank := by
  unfold Engine.bankPatches
  cases job.bank <;> simp

/-- The one bank that is asked for is written, unless the call ends in a fault without any bank
written. -/
theorem bank_mem_of_asked (asked : Engine.Asked job ps (w.step topic args job).outcome rs)
    (hname : .bank name ∈ ps) (only : ∀ name', .bank name' ∈ ps → name' = name)
    (written : w.refusesSpec job.id (.call topic args job) = true →
      ∃ b ∈ HostRequest.banks rs, b.1 = job.id) :
    .updateJobspec job.id (.bank name) ∈ rs := by
  cases hr : w.refusesSpec job.id (.call topic args job) with
  | false => exact asked.all (ne_jobspecUpdate hr) _ hname
  | true =>
    obtain ⟨⟨j, name'⟩, hb, rfl⟩ := written hr
    have hb := HostRequest.mem_banks.mp hb
    obtain rfl := only name' (asked.only _ hb)
    exact hb

end Asked

/-! ### Along a run -/

section Runs

variable {w : World (Recorded H)} {ev : Event (Recorded H)} {es : List (Event (Recorded H))}
  {u : UserId} {told : List HostRequest}

/-- In this event, the job comes to another account, and the scheduler refuses to write the bank
of it. -/
def LosesBank (w : World (Recorded H)) (j : JobId) (ev : Event (Recorded H)) : Prop :=
  w.refusesSpec j ev = true ∧ (w.after ev).accountOf j ≠ w.accountOf j ∧
    ∀ b ∈ HostRequest.banks (w.acceptedIn ev), b.1 ≠ j

/-- The host's order, where a job can be announced again. The scheduler does not refuse to write
the bank of one job, and the feed tells of no account of its user's in the placeholders'
bank. -/
def WritingOrder (j : JobId) (u : UserId) (w : World (Recorded H)) (ev : Event (Recorded H)) :
    Prop :=
  w.RetryingOrder ev ∧ ¬ w.LosesBank j ev ∧ ev.granted ⟨u, Account.placeholderBank⟩ = []

instance (w : World (Recorded H)) (j : JobId) : DecidablePred (w.LosesBank j) := fun ev =>
  inferInstanceAs (Decidable (w.refusesSpec j ev = true ∧
    (w.after ev).accountOf j ≠ w.accountOf j ∧
    ∀ b ∈ HostRequest.banks (w.acceptedIn ev), b.1 ≠ j))

instance (j : JobId) (u : UserId) (w : World (Recorded H)) : DecidablePred (WritingOrder j u w) :=
  fun ev => inferInstanceAs (Decidable (w.RetryingOrder ev ∧ ¬ w.LosesBank j ev ∧
    ev.granted ⟨u, Account.placeholderBank⟩ = []))

/-- What such runs keep for a job and a user, together with all requests that were accepted. -/
structure WritesBank (j : JobId) (u : UserId) (w : World (Recorded H))
    (told : List HostRequest) : Prop where
  coherent : w.Coherent
  /-- The user has no real account in the placeholders' bank. -/
  vacant : ∀ a, w.account ⟨u, Account.placeholderBank⟩ = some a → a.isPlaceholder = true
  /-- If the job is the user's, names no bank and is bound to a real account, the bank of the
  account was written. -/
  written : ∀ l k a, w.live j = some l → l.userid = u → l.bank = none → w.accountOf j = some k →
    w.account k = some a → a.isPlaceholder = false → .updateJobspec j (.bank k.bank) ∈ told

/-- Where a job that names no bank comes to a real account, the bank of that is written. -/
theorem WritesBank.bank_of_joins (hw : w.WritesBank j u told) (h : WritingOrder j u w ev)
    (hl : (w.after ev).live j = some l) (hu : l.userid = u) (hb : l.bank = none)
    (hk : (w.after ev).accountOf j = some k) (hne : w.accountOf j ≠ some k)
    (ha : (w.after ev).account k = some a) (real : a.isPlaceholder = false) :
    .updateJobspec j (.bank k.bank) ∈ w.acceptedIn ev := by
  obtain ⟨order, kept, -⟩ := h
  obtain ⟨topic, args, job, rs, home, rfl, rfl, accepts, rfl, hstep, binds⟩ :=
    call_of_accountOf hk hne
  rw [LosesBank, accepts.acceptedIn_eq] at kept
  rw [accepts.acceptedIn_eq]
  have written : w.refusesSpec job.id (.call topic args job) = true →
      ∃ b ∈ HostRequest.banks rs, b.1 = job.id := by
    intro refused
    by_contra hnone
    refine kept ⟨refused, ?_, fun b hb he => hnone ⟨b, hb, he⟩⟩
    rw [hk]
    exact hne.symm
  have unnamed : topic ≠ .validate → job.bank = none := fun ht =>
    (order.user_after hw.coherent.known ht hl).2.symm.trans hb
  have owner : topic ≠ .validate → job.userid = u := fun ht =>
    (order.user_after hw.coherent.known ht hl).1.symm.trans hu
  cases binds with
  | kept same =>
    refine absurd ?_ hne
    rw [accountOf_eq]
    exact congrArg (Option.map Handle.key) (same.symm.trans hstep)
  | freed _ hb => simp [hb] at hstep
  | placed _ _ hk' _ ha' hp =>
    cases hk'.symm.trans hstep
    cases ha'.symm.trans ha
    simp [real] at hp
  | @admitted a' byDefault ht _ hk' hu' ha' real' found asked =>
    cases hk'.symm.trans hstep
    rcases found with found | stray
    · refine bank_mem_of_asked asked (bank_mem_givenPatches.mpr ⟨?_, rfl⟩)
        (fun name hname => (bank_mem_givenPatches.mp hname).2) written
      rw [found, unnamed (by simp [ht])]
      rfl
    · -- the user has no real account in the placeholders' bank
      have key : a'.key = ⟨u, Account.placeholderBank⟩ := by
        rw [← owner (by simp [ht]), ← hu', ← stray]
      rw [key] at ha'
      simp [hw.vacant a' ha'] at real'
  | moved ht _ _ _ hk' asked =>
    cases hk'.symm.trans hstep
    refine bank_mem_of_asked asked (bank_mem_bankPatches.mpr ⟨unnamed ?_, rfl⟩)
      (fun name hname => (bank_mem_bankPatches.mp hname).2) written
    rcases ht with rfl | rfl <;> simp

/-- A job that stays bound was bound to a real account before, if it is now. -/
theorem WritesBank.real_before (hw : w.WritesBank j u told) (h : WritingOrder j u w ev)
    (hl : w.live j = some l) (hu : l.userid = u) (hk : w.accountOf j = some k)
    (ha : (w.after ev).account k = some a) (real : a.isPlaceholder = false) :
    ∃ a₀, w.account k = some a₀ ∧ a₀.isPlaceholder = false := by
  obtain ⟨a₀, ha₀⟩ := hw.coherent.housed j k hk
  refine ⟨a₀, ha₀, ?_⟩
  by_contra hp
  rw [Bool.not_eq_false] at hp
  have key : k = ⟨u, Account.placeholderBank⟩ := by
    rw [← hu, ← hw.coherent.owned j l k hl hk, ← hw.coherent.standIns k a₀ ha₀ hp]
  obtain ⟨kind, rows, rfl⟩ | grows := w.feed_or_growsTo ev
  · rw [account_after_feed, key, h.2.2, ← key] at ha
    cases ha₀.symm.trans ha
    simp [real] at hp
  · obtain ⟨_, ha', usage, rfl⟩ := grows.stays k a₀ ha₀
    cases ha.symm.trans ha'
    change a₀.isPlaceholder = false at real
    simp [real] at hp

theorem WritesBank.after (hw : w.WritesBank j u told) (h : WritingOrder j u w ev) :
    (w.after ev).WritesBank j u (told ++ w.acceptedIn ev) where
  coherent := hw.coherent.after h.1
  vacant a ha := by
    obtain ⟨kind, rows, rfl⟩ | grows := w.feed_or_growsTo ev
    · rw [account_after_feed, h.2.2] at ha
      exact hw.vacant a ha
    · by_contra real
      obtain ⟨a₀, ha₀, usage, rfl⟩ := grows.real ha (by simpa using real)
      exact real (hw.vacant a₀ ha₀)
  written l k a hl hu hb hk ha real := by
    by_cases hbefore : w.accountOf j = some k
    · obtain ⟨l₀, hl₀⟩ := exists_live_of_accountOf hbefore
      obtain ⟨hu₀, hb₀⟩ := user_of_live_after hl₀ hl
      obtain ⟨a₀, ha₀, real₀⟩ := hw.real_before h hl₀ (hu₀.symm.trans hu) hbefore ha real
      exact List.mem_append_left _
        (hw.written l₀ k a₀ hl₀ (hu₀.symm.trans hu) (hb₀.symm.trans hb) hbefore ha₀ real₀)
    · exact List.mem_append_right _ (hw.bank_of_joins h hl hu hb hk hbefore ha real)

omit [Scheduler H] in
theorem start_writesBank (config : Config) (host : Recorded H) (audit : Option AuditTrail) :
    (start config host audit).WritesBank j u [] where
  coherent := start_coherent config host audit
  vacant a ha := by
    cases (account_start config host audit _).symm.trans ha
  written l k a hl := by cases hl

theorem Obeys.writesBank {config : Config} {host : Recorded H} {audit : Option AuditTrail}
    (h : (start config host audit).Obeys (WritingOrder j u) es) :
    ((start config host audit).afterAll es).WritesBank j u
      (Run.history after acceptedIn (start config host audit) es) := by
  have kept := h.invariant_history (I := WritesBank j u)
    (fun _ _ _ hw h => hw.after h) (start_writesBank config host audit)
  rwa [List.nil_append] at kept

/-- A call that gives a job its priority fits such a run wherever it is due. -/
theorem writingOrder_of_value {value : Int64} (due : w.RetryingOrder (.call topic args job))
    (hv : (w.step topic args job).outcome = .ok (.priority value)) :
    WritingOrder job.id u w (.call topic args job) := by
  refine ⟨due, ?_, rfl⟩
  rintro ⟨refused, -⟩
  simp [refusesSpec, hv] at refused

/-- After a job was given its priority, the bank of its account is written. -/
theorem WritesBank.of_value
    (hw : (w.after (.call topic args job)).WritesBank job.id job.userid told)
    (due : w.RetryingOrder (.call topic args job))
    (known : ∀ j l, w.live j = some l → j ∈ w.arrived) (hbank : job.bank = none) {value : Int64}
    (hv : (w.step topic args job).outcome = .ok (.priority value)) :
    ∃ b a, ((w.after (.call topic args job)).storage job.id).binding = some b ∧
      (w.after (.call topic args job)).account b.account.key = some a ∧ a.handle = b.account ∧
      a.isPlaceholder = false ∧ .updateJobspec job.id (.bank a.key.bank) ∈ told := by
  have ht := (priority_of_value hv).1
  have live : ∃ l, w.live job.id = some l := by
    rcases due with due | ⟨_, announced, -⟩
    · rcases ht with rfl | rfl <;> exact due.imp fun l hl => hl.1
    · rcases ht with rfl | rfl <;> cases announced
  obtain ⟨l, hl⟩ := live
  obtain ⟨b, a, hb, ha, real⟩ := real_after_of_value hl hv
  have there := hw.coherent.keyed.kept ha
  have key := Ledger.key_of_account? there
  have hk : (w.after (.call topic args job)).accountOf job.id = some b.account.key := by
    rw [accountOf, hb]
    rfl
  obtain ⟨l', hl'⟩ := exists_live_of_accountOf hk
  have validated : topic ≠ .validate := by
    rcases ht with rfl | rfl <;> simp
  obtain ⟨hu, hb'⟩ := due.user_after known validated hl'
  refine ⟨b, a, hb, there, Ledger.own _ _ a ha, real, ?_⟩
  rw [key]
  exact hw.written l' b.account.key a hl' hu (hb'.trans hbank) hk there real

/-- A job that names no bank and is given its priority is bound to an account whose bank was
written into its specification, in every run in which the scheduler does not refuse to write it
and the feed tells of no account of the user's in the placeholders' bank. -/
theorem bank_written {config : Config} {host : Recorded H} {audit : Option AuditTrail}
    (h : (start config host audit).Obeys (WritingOrder job.id job.userid) es)
    (hbank : job.bank = none)
    (due : ((start config host audit).afterAll es).RetryingOrder (.call topic args job))
    {value : Int64} (hv : (((start config host audit).afterAll es).step topic args job).outcome =
      .ok (.priority value)) :
    ∃ b a, (((start config host audit).afterAll (es ++ [.call topic args job])).storage
        job.id).binding = some b ∧
      ((start config host audit).afterAll (es ++ [.call topic args job])).account b.account.key =
        some a ∧ a.handle = b.account ∧ a.isPlaceholder = false ∧
      .updateJobspec job.id (.bank a.key.bank) ∈
        Run.history after acceptedIn (start config host audit) (es ++ [.call topic args job]) := by
  have obeys : (start config host audit).Obeys (WritingOrder job.id job.userid)
      (es ++ [.call topic args job]) :=
    obeys_append.mpr ⟨h, writingOrder_of_value due hv, trivial⟩
  have kept := obeys.writesBank
  rw [afterAll_append] at kept ⊢
  exact kept.of_value due h.writesBank.coherent.known hbank hv

end Runs

/-! ### A bank that is lost -/

namespace Sample

/-- Job 7 names no bank. -/
def nameless : Job := { Sample.job 7 with bank := none }

/-- A record tells of the account in the default bank of the user. -/
def tellingDefault : List (Event (Recorded Host)) := [.feed .accounts [recordIn key.bank 0]]

/-- The job is announced and comes through the throttle. -/
def enrolling : List (Event (Recorded Host)) :=
  [.call .new .null nameless, .call .depend .null nameless]

/-- The host is made to refuse the next change of a specification, and the job is announced. -/
def refusing : List (Event (Recorded Host)) :=
  [.scheduler { scheduler := { armed := fun op => op == .updateJobspec } },
   .call .new .null nameless]

/-- The job asks for its priority. -/
def askingNameless : Event (Recorded Host) := .call .priority .null nameless

end Sample

/-- In the sample, the bank is written when the job is announced. -/
theorem sample_bank_written :
    Sample.recording.Obeys (WritingOrder 7 Sample.key.userid)
        (Sample.tellingDefault ++ Sample.enrolling) ∧
      Sample.nameless.bank = none ∧
      (Sample.recording.afterAll (Sample.tellingDefault ++ Sample.enrolling)).RetryingOrder
        Sample.askingNameless ∧
      ((Sample.recording.afterAll (Sample.tellingDefault ++ Sample.enrolling)).step .priority .null
        Sample.nameless).outcome = .ok (.priority 50000) ∧
      ∃ a : Account, .updateJobspec 7 (.bank a.key.bank) ∈
        Run.history after acceptedIn Sample.recording
          (Sample.tellingDefault ++ Sample.enrolling ++ [Sample.askingNameless]) := by
  have obeys : Sample.recording.Obeys (WritingOrder Sample.nameless.id Sample.nameless.userid)
      (Sample.tellingDefault ++ Sample.enrolling) := by
    decide +kernel
  have due : (Sample.recording.afterAll
      (Sample.tellingDefault ++ Sample.enrolling)).RetryingOrder Sample.askingNameless := by
    decide +kernel
  have value : ((Sample.recording.afterAll (Sample.tellingDefault ++ Sample.enrolling)).step
      .priority .null Sample.nameless).outcome = .ok (.priority 50000) := by
    decide +kernel
  obtain ⟨b, a, -, -, -, -, written⟩ := bank_written obeys rfl due value
  exact ⟨obeys, rfl, due, value, a, written⟩

/-- If the host refuses to write the bank, the job is announced again and given its priority, and
its bank is never written. -/
theorem bank_lost :
    Sample.recording.Obeys RetryingOrder (Sample.tellingDefault ++ Sample.refusing ++
        Sample.enrolling ++ [Sample.askingNameless]) ∧
      ((Sample.recording.afterAll (Sample.tellingDefault ++ Sample.refusing.take 1)).step .new
        .null Sample.nameless).outcome =
          .error (.fault (.jobspecUpdate (.refused .updateJobspec))) ∧
      ((Sample.recording.afterAll (Sample.tellingDefault ++ Sample.refusing ++
        Sample.enrolling)).step .priority .null Sample.nameless).outcome =
          .ok (.priority 50000) ∧
      ∀ name, .updateJobspec 7 (.bank name) ∉
        Run.history after acceptedIn Sample.recording
          (Sample.tellingDefault ++ Sample.refusing ++ Sample.enrolling ++
            [Sample.askingNameless]) := by
  have nothing : Run.history after acceptedIn Sample.recording (Sample.tellingDefault ++
      Sample.refusing ++ Sample.enrolling ++ [Sample.askingNameless]) = [] := by
    decide +kernel
  refine ⟨by decide +kernel, by decide +kernel, by decide +kernel, fun name => ?_⟩
  rw [nothing]
  exact List.not_mem_nil

end World

end JobAdmission

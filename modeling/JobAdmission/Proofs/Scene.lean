import JobAdmission.Proofs.Books

/-!
# One account at a time

This module holds what a world shows at one account (`Scene`): the account, if it is
there, and the live jobs that are bound to it. It says once what can happen there: what a
call on a job does to the account and to the job's place at it (`Move`), and what else can
happen (`Scene.Step`), each with the requests about the account's jobs that the scheduler
accepts in it. A scene is sound if the account's books are right and the jobs of a
placeholder take nothing up (`Scene.Sound`); whatever happens keeps it sound
(`Scene.Sound.step`). What runs keep at an account is proved by the cases of these
relations.
-/

namespace JobAdmission

/-- What a world shows at one account. -/
structure Scene where
  /-- The account. -/
  account : Option Account
  /-- The jobs that were ever announced. -/
  arrived : Finset JobId
  /-- The live jobs that are bound to the account. -/
  member : JobId → Option Member

/-- The account of a key under terms of the feed: the account that is there, or a new one. -/
def Account.told (k : AccountKey) (a : Option Account) (terms : Terms) : Account :=
  (a.map (·.refresh terms)).getD { key := k, kind := .real, terms }

/-- What a call on job `j` does to the account `k` and to the job there, and the requests
for jobs of the account to wait, or to wait no longer, that the scheduler accepts in it. The
flag tells whether the scheduler may refuse to release a job. -/
inductive Move (k : AccountKey) (j : JobId) (refusing : Bool) :
    List HostRequest → Account → Option Member → Account → Option Member → Prop where
  /-- A new job is bound to a placeholder. -/
  | sit {a : Account} (hp : a.isPlaceholder = true) :
    Move k j refusing [] a none a (some ⟨.fresh, { account := a.handle }, false⟩)
  /-- A new job is bound to a real account. -/
  | enroll {a : Account} {factor : Int64} (hp : a.isPlaceholder = false)
    (room : a.atActiveLimit = false) :
    Move k j refusing [] a none (a.countActive.withQueueFactor factor)
      (some ⟨.fresh, { account := a.handle, queueFactor := factor, countedActive := true }, false⟩)
  /-- A placeholder lets a job pass. -/
  | wave {a : Account} {b : JobBinding} {marked : Bool} (hp : a.isPlaceholder = true) :
    Move k j refusing [] a (some ⟨.fresh, b, marked⟩) a
      (some ⟨.waiting, { b with runReserved := false }, marked⟩)
  /-- The gate lets a job through. -/
  | proceed {a a' : Account} {b : JobBinding} {r marked : Bool} (hp : a.isPlaceholder = false)
    (hg : a.enterGate j = (.proceed r, a')) :
    Move k j refusing [] a (some ⟨.fresh, b, marked⟩) a'
      (some ⟨.waiting, { b with runReserved := r }, marked⟩)
  /-- The gate holds a job. -/
  | hold {a a' : Account} {b : JobBinding} {marked : Bool} (hp : a.isPlaceholder = false)
    (hg : a.enterGate j = (.hold, a')) :
    Move k j refusing [.addDependency j heldLabel] a (some ⟨.fresh, b, marked⟩) a'
      (some ⟨.waiting, b, true⟩)
  /-- The gate would hold a job, and the scheduler refuses to. -/
  | refuse {a : Account} {b : JobBinding} {marked : Bool} (hp : a.isPlaceholder = false) :
    Move k j refusing [] a (some ⟨.fresh, b, marked⟩) a (some ⟨.stopped, b, marked⟩)
  /-- A job is given its priority. -/
  | prioritize {a : Account} {b : JobBinding} {p : Phase} {marked : Bool}
    (hp : a.isPlaceholder = false) :
    Move k j refusing [] a (some ⟨p, b, marked⟩) a
      (some ⟨if p = .waiting then .ready else p, b, marked⟩)
  /-- A job moves from a placeholder to its real account. -/
  | depart {a : Account} {b : JobBinding} {marked : Bool} (hp : a.isPlaceholder = true) :
    Move k j refusing [] a (some ⟨.waiting, b, marked⟩) a none
  /-- A job comes from a placeholder, and the gate lets it through. -/
  | moveIn {a a' : Account} {r : Bool} {factor : Int64} {p : Phase}
    (hp : a.isPlaceholder = false) (hg : a.enterGate j = (.proceed r, a'))
    (h : p = .waiting ∨ p = .ready) :
    Move k j refusing [] a none (a'.countActive.withQueueFactor factor)
      (some ⟨p, { account := a.handle, queueFactor := factor, countedActive := true,
                  runReserved := r }, false⟩)
  /-- A job comes from a placeholder, and the gate holds it. -/
  | moveInHeld {a a' : Account} {factor : Int64} {p : Phase} (hp : a.isPlaceholder = false)
    (hg : a.enterGate j = (.hold, a')) (h : p = .waiting ∨ p = .ready) :
    Move k j refusing [.addDependency j heldLabel] a none (a'.countActive.withQueueFactor factor)
      (some ⟨p, { account := a.handle, queueFactor := factor, countedActive := true }, true⟩)
  /-- The queue of a job has another factor. -/
  | settle {a : Account} {b : JobBinding} {p : Phase} {factor : Int64} {marked : Bool}
    (hp : a.isPlaceholder = false) :
    Move k j refusing [] a (some ⟨p, b, marked⟩) (a.withQueueFactor factor)
      (some ⟨p, { b with queueFactor := factor }, marked⟩)
  /-- A job runs. -/
  | start {a : Account} {b : JobBinding} {marked : Bool} (hp : a.isPlaceholder = false)
    (hh : j ∉ a.usage.gate.held) :
    Move k j refusing [] a (some ⟨.ready, b, marked⟩) (a.start j b)
      (some ⟨.running, { b with runReserved := false, countedRunning := true }, false⟩)
  /-- A job leaves and gives no slot back. -/
  | leave {a a' : Account} {m : Member}
    (hl : a.leave j m.binding (decide (m.phase = .running)) = (false, a')) :
    Move k j refusing [] a (some m) a' none
  /-- A job leaves and gives a slot back, and no job is released. -/
  | free {a a₁ a' : Account} {m : Member}
    (hl : a.leave j m.binding (decide (m.phase = .running)) = (true, a₁))
    (hr : a₁.releaseNext = (none, a')) :
    Move k j refusing [] a (some m) a' none
  /-- A job leaves and gives a slot back, and the next job is released. -/
  | release {a a₁ a' : Account} {m : Member} {next : JobId}
    (hl : a.leave j m.binding (decide (m.phase = .running)) = (true, a₁))
    (hr : a₁.releaseNext = (some next, a')) :
    Move k j refusing [.removeDependency next heldLabel] a (some m) a' none
  /-- A job leaves and gives a slot back, and the scheduler refuses to release the next job. -/
  | keep {a a₁ a₂ : Account} {m : Member} {next : JobId} (h : refusing = true)
    (hl : a.leave j m.binding (decide (m.phase = .running)) = (true, a₁))
    (hr : a₁.releaseNext = (some next, a₂)) :
    Move k j refusing [] a (some m) a₁.unreleased none

/-- What can happen to a scene, the terms that the feed grants the account in it, in order,
and the requests about its jobs that the scheduler accepts. Any number of other jobs can be
announced meanwhile. -/
inductive Scene.Step (k : AccountKey) (refusing : Bool) :
    List Terms → List HostRequest → Scene → Scene → Prop where
  /-- The feed grants terms. -/
  | told {s : Scene} {granted : List Terms} {terms : Terms} (h : granted.getLast? = some terms) :
    Step k refusing granted [] s { s with account := some (.told k s.account terms) }
  /-- Nothing happens at the account. -/
  | quiet {s : Scene} {S : Finset JobId} (hS : s.arrived ⊆ S) :
    Step k refusing [] [] s { s with arrived := S }
  /-- A placeholder is created. -/
  | found {s : Scene} {S : Finset JobId} {userid : UserId} {fairshare : Binary64}
    (hS : s.arrived ⊆ S) (hs : s.account = none)
    (hk : (Account.placeholder userid fairshare).key = k) :
    Step k refusing [] [] s ⟨some (.placeholder userid fairshare), S, s.member⟩
  /-- A placeholder is created for a new job. -/
  | foundFor {s : Scene} {S : Finset JobId} {j : JobId} {userid : UserId} {fairshare : Binary64}
    (hS : s.arrived ⊆ S) (hj : j ∈ S) (hs : s.account = none)
    (hk : (Account.placeholder userid fairshare).key = k) :
    Step k refusing [] [] s ⟨some (.placeholder userid fairshare), S,
      Function.update s.member j
        (some ⟨.fresh, { account := (Account.placeholder userid fairshare).handle }, false⟩)⟩
  /-- There is a call on a job. -/
  | move {s : Scene} {S : Finset JobId} {j : JobId} {rs : List HostRequest} {a a' : Account}
    {m' : Option Member} (hS : s.arrived ⊆ S) (hj : j ∈ S) (ha : s.account = some a)
    (h : Move k j refusing rs a (s.member j) a' m') :
    Step k refusing [] rs s ⟨some a', S, Function.update s.member j m'⟩

/-! ### Soundness -/

/-- A job that takes nothing up. -/
structure Member.Plain (m : Member) : Prop where
  phase : m.phase = .fresh ∨ m.phase = .waiting
  active : m.binding.countedActive = false
  slotless : m.Slotless

/-- The account is the first one that was created under its key, it is the one that its
jobs hold, its jobs are known, its books are right, and if it is a placeholder, its jobs
take nothing up. -/
structure Scene.Sound (k : AccountKey) (s : Scene) : Prop where
  keyed : ∀ a, s.account = some a → a.handle = ⟨k, 0⟩
  housed : ∀ j m, s.member j = some m → ∃ a, s.account = some a ∧ m.binding.account = a.handle
  known : ∀ j m, s.member j = some m → j ∈ s.arrived
  books : ∀ a, s.account = some a → a.usage.Books s.member
  plain : ∀ a, s.account = some a → a.isPlaceholder = true → ∀ j m, s.member j = some m →
    m.Plain ∧ j ∉ a.usage.gate.held ∧ j ∉ a.usage.gate.released

variable {k : AccountKey} {j : JobId} {refusing : Bool} {rs : List HostRequest} {a a' : Account}
  {m m' : Option Member}

/-- A call changes what the jobs of an account take up, and nothing else of it. -/
theorem Move.frame (h : Move k j refusing rs a m a' m') :
    a'.handle = a.handle ∧ a'.kind = a.kind ∧ a'.terms = a.terms := by
  cases h with
  | sit | enroll | wave | refuse | prioritize | depart | settle | start => exact ⟨rfl, rfl, rfl⟩
  | proceed _ hg | hold _ hg | moveIn _ hg _ | moveInHeld _ hg _ =>
    obtain ⟨gate, rfl⟩ := Account.eq_withGate_of_enterGate hg
    exact ⟨rfl, rfl, rfl⟩
  | leave hl =>
    obtain ⟨-, rfl⟩ := Account.leave_eq hl
    exact ⟨rfl, rfl, rfl⟩
  | free hl hr =>
    obtain ⟨-, rfl⟩ := Account.leave_eq hl
    obtain ⟨-, rfl⟩ := Account.releaseNext_none hr
    exact ⟨rfl, rfl, rfl⟩
  | release hl hr =>
    obtain ⟨-, rfl⟩ := Account.leave_eq hl
    obtain ⟨_, -, -, rfl⟩ := Account.releaseNext_some hr
    exact ⟨rfl, rfl, rfl⟩
  | keep _ hl =>
    obtain ⟨-, rfl⟩ := Account.leave_eq hl
    exact ⟨rfl, rfl, rfl⟩

/-- A job holds the account that it is bound to. -/
theorem Move.holds (h : Move k j refusing rs a m a' m')
    (held : ∀ n, m = some n → n.binding.account = a.handle) {n : Member} (hn : m' = some n) :
    n.binding.account = a.handle := by
  cases h with
  | sit | enroll | moveIn | moveInHeld =>
    cases hn
    rfl
  | wave | proceed | hold | refuse | prioritize | settle | start =>
    cases hn
    exact (held _ rfl :)
  | depart | leave | free | release | keep => cases hn

/-- A call on a job keeps the books. -/
theorem Move.books {f : JobId → Option Member} (h : Move k j refusing rs a m a' m') (hm : f j = m)
    (B : a.usage.Books f) (plain : a.isPlaceholder = true → ∀ n, f j = some n →
      n.Plain ∧ j ∉ a.usage.gate.held ∧ j ∉ a.usage.gate.released) :
    a'.usage.Books (Function.update f j m') := by
  cases h with
  | sit | enroll =>
    refine B.reseat (B.outside_of_none hm) rfl ?_
    rintro n ⟨⟩
    exact ⟨⟨rfl, rfl⟩, by simp, rfl⟩
  | wave =>
    have early := (B.fits j _ hm).early (.inl rfl)
    refine B.reseat (B.outside_of_early hm (.inl rfl)) rfl ?_
    rintro n ⟨⟩
    exact ⟨⟨rfl, early.1.2⟩, by simp, (B.fits j _ hm).unmarked early.2.1 early.2.2⟩
  | proceed _ hg =>
    have early := (B.fits j _ hm).early (.inl rfl)
    obtain ⟨-, -, rfl⟩ := Account.enterGate_proceed hg
    exact B.reserve (B.outside_of_early hm (.inl rfl)) rfl rfl early.1.2
      ((B.fits j _ hm).unmarked early.2.1 early.2.2) (.inl rfl)
  | hold _ hg =>
    have early := (B.fits j _ hm).early (.inl rfl)
    obtain ⟨-, rfl⟩ := Account.enterGate_hold hg
    exact B.hold (B.outside_of_early hm (.inl rfl)) rfl early.1 rfl (.inl rfl)
  | refuse =>
    have early := (B.fits j _ hm).early (.inl rfl)
    refine B.reseat (B.outside_of_early hm (.inl rfl)) rfl ?_
    rintro n ⟨⟩
    exact ⟨early.1, by simp, (B.fits j _ hm).unmarked early.2.1 early.2.2⟩
  | @prioritize _ b p =>
    refine B.revise hm rfl rfl rfl rfl ?_
    by_cases hp : p = .waiting
    · exact .inr ⟨hp, by simp [hp]⟩
    · exact .inl (by simp [hp])
  | depart hp =>
    obtain ⟨-, hh, hr⟩ := plain hp _ hm
    exact B.reseat ⟨hh, hr⟩ rfl (by simp)
  | moveIn _ hg h =>
    obtain ⟨-, -, rfl⟩ := Account.enterGate_proceed hg
    exact B.reserve (B.outside_of_none hm) rfl rfl rfl rfl h
  | moveInHeld _ hg h =>
    obtain ⟨-, rfl⟩ := Account.enterGate_hold hg
    exact B.hold (B.outside_of_none hm) rfl ⟨rfl, rfl⟩ rfl h
  | settle => exact B.revise hm rfl rfl rfl rfl (.inl rfl)
  | start _ hh => exact B.start hh
  | leave hl => exact B.leave hl
  | free hl hr =>
    obtain ⟨-, rfl⟩ := Account.releaseNext_none hr
    exact B.leave hl
  | release hl hr => exact (B.leave hl).releaseNext hr
  | keep _ hl _ => exact (B.leave hl).of_same rfl rfl

/-- A job that takes nothing up gives no slot back. -/
theorem Member.Plain.not_freed {n : Member} (hn : n.Plain) (hr : j ∉ a.usage.gate.released) :
    a.leave j n.binding (decide (n.phase = .running)) ≠ (true, a') := by
  intro hl
  obtain ⟨hf, -⟩ := Account.leave_eq hl
  have hp : n.phase ≠ .running := by
    rcases hn.phase with hp | hp <;> simp [hp]
  simp [Gate.hasSlot, hn.slotless.1, Gate.contains_eq_false hr, hp] at hf

/-- A call on a job leaves the jobs of a placeholder with nothing. -/
theorem Move.plain {f : JobId → Option Member} (h : Move k j refusing rs a m a' m')
    (hm : f j = m) (B : a.usage.Books f) (hp : a.isPlaceholder = true)
    (plain : ∀ i n, f i = some n →
      n.Plain ∧ i ∉ a.usage.gate.held ∧ i ∉ a.usage.gate.released)
    {i : JobId} {n : Member} (hn : Function.update f j m' i = some n) :
    n.Plain ∧ i ∉ a'.usage.gate.held ∧ i ∉ a'.usage.gate.released := by
  have other : i ≠ j → n.Plain ∧ i ∉ a.usage.gate.held ∧ i ∉ a.usage.gate.released := by
    intro hij
    rw [Function.update_of_ne hij] at hn
    exact plain i n hn
  cases h with
  | sit =>
    by_cases hij : i = j
    · subst hij
      obtain rfl : _ = n := by simpa using hn
      have outside := B.outside_of_none hm
      exact ⟨⟨.inl rfl, rfl, rfl, rfl⟩, outside.held, outside.released⟩
    · exact other hij
  | wave =>
    by_cases hij : i = j
    · subst hij
      obtain rfl : _ = n := by simpa using hn
      obtain ⟨hb, hh, hr⟩ := plain i _ hm
      exact ⟨⟨.inr rfl, hb.active, rfl, hb.slotless.2⟩, hh, hr⟩
    · exact other hij
  | depart =>
    by_cases hij : i = j
    · subst hij
      simp at hn
    · exact other hij
  | leave hl =>
    obtain ⟨-, rfl⟩ := Account.leave_eq hl
    by_cases hij : i = j
    · subst hij
      simp at hn
    · obtain ⟨hb, hh, hr⟩ := other hij
      refine ⟨hb, fun h => hh ?_, fun h => hr ?_⟩
      · exact (Gate.mem_held_withdraw.mp h).2
      · exact (Gate.mem_released_withdraw.mp h).2
  | free hl _ | release hl _ | keep _ hl _ =>
    obtain ⟨hb, -, hr⟩ := plain j _ hm
    exact absurd hl (hb.not_freed hr)
  | enroll hr | proceed hr | hold hr | refuse hr | prioritize hr | moveIn hr | moveInHeld hr
  | settle hr | start hr => simp [hr] at hp

/-- No job is bound to an account that is not there. -/
theorem Scene.Sound.member_of_none {s : Scene} (hs : s.Sound k) (ha : s.account = none)
    (i : JobId) : s.member i = none := by
  by_contra hi
  obtain ⟨n, hn⟩ := Option.ne_none_iff_exists'.mp hi
  obtain ⟨a, ha', -⟩ := hs.housed i n hn
  simp [ha] at ha'

/-- Whatever happens at an account keeps its scene sound. -/
theorem Scene.Sound.step {s s' : Scene} {granted : List Terms} (hs : s.Sound k)
    (h : Scene.Step k refusing granted rs s s') : s'.Sound k := by
  have empty : s.account = none → ∀ i, s.member i = none := hs.member_of_none
  cases h with
  | told =>
    refine ⟨?_, fun i n hi => ?_, hs.known, ?_, ?_⟩
    · rintro a ⟨⟩
      cases ha : s.account with
      | none => rfl
      | some a => exact hs.keyed a ha
    · obtain ⟨a, ha, held⟩ := hs.housed i n hi
      exact ⟨_, rfl, by rw [held, ha]; rfl⟩
    · rintro a ⟨⟩
      cases ha : s.account with
      | none => exact .initial (empty ha)
      | some a => exact hs.books a ha
    · rintro a ⟨⟩ hp
      cases ha : s.account with
      | none => simp [ha, Account.told, Account.isPlaceholder] at hp
      | some a => simp [ha, Account.told, Account.isPlaceholder, Account.refresh] at hp
  | quiet hS =>
    exact ⟨hs.keyed, hs.housed, fun i n hi => hS (hs.known i n hi), hs.books, hs.plain⟩
  | found hS ha hk =>
    refine ⟨?_, fun i n hi => ?_, fun i n hi => hS (hs.known i n hi), ?_, ?_⟩
    · rintro a ⟨⟩
      exact congrArg (Handle.mk · 0) hk
    · simp [empty ha] at hi
    · rintro a ⟨⟩
      exact .initial (empty ha)
    · rintro a ⟨⟩ - i n hi
      simp [empty ha] at hi
  | @foundFor _ S j userid fairshare hS hj ha hk =>
    have B : (Account.placeholder userid fairshare).usage.Books s.member := .initial (empty ha)
    have sit : Move k j refusing [] (Account.placeholder userid fairshare) (s.member j)
        (.placeholder userid fairshare)
        (some ⟨.fresh, { account := (Account.placeholder userid fairshare).handle }, false⟩) := by
      rw [empty ha]
      exact .sit rfl
    refine ⟨?_, fun i n hi => ⟨_, rfl, ?_⟩, fun i n hi => ?_, ?_, ?_⟩
    · rintro a ⟨⟩
      exact congrArg (Handle.mk · 0) hk
    · by_cases hij : i = j
      · subst hij
        obtain rfl : _ = n := by simpa using hi
        rfl
      · simp [Function.update_of_ne hij, empty ha] at hi
    · by_cases hij : i = j
      · exact hij ▸ hj
      · simp [Function.update_of_ne hij, empty ha] at hi
    · rintro a ⟨⟩
      exact sit.books rfl B fun _ n hn => by simp [empty ha] at hn
    · rintro a ⟨⟩ hp i n hi
      exact sit.plain rfl B hp (fun i n hi => by simp [empty ha] at hi) hi
  | @move _ S j rs a a' m' hS hj ha h =>
    have B := hs.books a ha
    obtain ⟨handle, kind, -⟩ := h.frame
    have held : ∀ i n, s.member i = some n → n.binding.account = a.handle := by
      intro i n hi
      obtain ⟨_, ha', held⟩ := hs.housed i n hi
      cases ha.symm.trans ha'
      exact held
    refine ⟨?_, fun i n hi => ⟨a', rfl, ?_⟩, fun i n hi => ?_, ?_, ?_⟩
    · rintro a₁ ⟨⟩
      exact handle.trans (hs.keyed a ha)
    · by_cases hij : i = j
      · subst hij
        exact (h.holds (held i) (by simpa using hi)).trans handle.symm
      · exact (held i n (by simpa [Function.update_of_ne hij] using hi)).trans handle.symm
    · by_cases hij : i = j
      · exact hij ▸ hj
      · have hi : s.member i = some n := by simpa [Function.update_of_ne hij] using hi
        exact hS (hs.known i n hi)
    · rintro a₁ ⟨⟩
      exact h.books rfl B fun hp n hn => hs.plain a ha hp j n hn
    · rintro a₁ ⟨⟩ hp i n hi
      have hp : a.isPlaceholder = true := by rwa [Account.isPlaceholder, ← kind]
      exact h.plain rfl B hp (hs.plain a ha hp) hi

end JobAdmission

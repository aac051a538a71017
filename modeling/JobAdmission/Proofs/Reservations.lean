import JobAdmission.Proofs.Counters
import JobAdmission.Proofs.FailedCalls

/-!
# One slot for a job

This module proves that the gates keep their books where the throttle comes to a live job again
(`World.Reached.reservations_exact`): the slots that are reserved at an account are those of its
jobs and of the released ones, no job is held twice or has two slots, and a job that left has none.
The throttle asks the gate each time as if the job were new to it. So the theorem is about runs in
which it does not come again to a job that is engaged (`World.engaged`): one that has a slot, or one
that the gate of an account with a cap holds or released. To every other job it may come as often as
it likes: to one that passed at a placeholder or without a cap, to one that it failed on, and to one
that runs.
Where it comes again to a job that has a slot, a second slot is reserved, and the job gives only one
of them back when it leaves (`World.slot_lost`).

The books of an account (`Usage.Books`) are too fine for this, as a job that runs can have a slot
reserved here. What is kept is that the gate is coherent, and that it does not know the jobs which
are new or wait at a placeholder (`Account.Tidy`). The count of the reserved slots is kept where the
counters can follow the run.
-/

namespace JobAdmission

variable {S : Finset JobId} {f : JobId → Option Member} {a a' a₁ : Account} {i j n : JobId}
  {m : Member} {m' : Option Member} {r ran freed : Bool} {light : Prop}

/-! ### Jobs that the gate does not know -/

/-- The job has no slot of its own, and the gate does not know it. -/
structure Member.Clear (m : Member) (g : Gate) (j : JobId) : Prop where
  slotless : m.binding.runReserved = false
  held : j ∉ g.held
  released : j ∉ g.released

/-- The gate can decide on the job as on a new one: the job has no slot of its own, and if the
account has a cap, then the gate does not know it. -/
structure Account.Unengaged (a : Account) (m : Option Member) (j : JobId) : Prop where
  slotless : Member.flag (·.runReserved) m = 0
  unknown : a.terms.runLimit.cap.isSome = true →
    j ∉ a.usage.gate.held ∧ j ∉ a.usage.gate.released

theorem Account.Unengaged.of_hold (h : a.Unengaged m' j) (hg : a.enterGate j = (.hold, a')) :
    j ∉ a.usage.gate.held ∧ j ∉ a.usage.gate.released := by
  obtain ⟨⟨c, hc, -⟩, -⟩ := Account.enterGate_hold hg
  exact h.unknown (by rw [hc]; rfl)

/-! ### Tidy accounts -/

/-- The account's gate is coherent, and clear of the jobs that did not come to the throttle and of
those that wait at a placeholder. If the counters can follow, it is balanced as well. -/
structure Account.Tidy (a : Account) (light : Prop) (S : Finset JobId)
    (f : JobId → Option Member) : Prop where
  known : ∀ j m, f j = some m → j ∈ S
  coherent : a.usage.gate.Coherent f
  balanced : light → a.usage.gate.Balanced S f
  clear : ∀ j m, f j = some m → m.phase = .fresh ∨ a.isPlaceholder = true → m.Clear a.usage.gate j

namespace Account.Tidy

/-- An account without jobs is tidy. -/
theorem initial (hg : a.usage.gate = {}) (hf : ∀ i, f i = none) : a.Tidy light S f where
  known := by simp [hf]
  coherent := by
    rw [hg]
    exact .initial
  balanced _ := by
    rw [hg]
    exact .initial hf
  clear := by simp [hf]

theorem mono (T : a.Tidy light S f) {S' : Finset JobId} (hS : S ⊆ S') : a.Tidy light S' f where
  known i m hi := hS (T.known i m hi)
  coherent := T.coherent
  balanced h := (T.balanced h).mono hS T.known
  clear := T.clear

/-- A real account stays tidy under other terms. -/
theorem of_real (T : a.Tidy light S f) (gate : a'.usage.gate = a.usage.gate)
    (real : a'.isPlaceholder = false) : a'.Tidy light S f where
  known := T.known
  coherent := by
    rw [gate]
    exact T.coherent
  balanced := by
    rw [gate]
    exact T.balanced
  clear i m hi h := by
    rw [gate]
    exact T.clear i m hi (.inl (h.resolve_right (by simp [real])))

/-- One job and its account change together. -/
theorem update (T : a.Tidy light S f) (hj : j ∈ S) (used : a.UsedAs a')
    (coherent : a'.usage.gate.Coherent (Function.update f j m'))
    (balanced : light → a'.usage.gate.Balanced S (Function.update f j m'))
    (others : ∀ i, i ≠ j → a.usage.gate.AgreeOn a'.usage.gate i)
    (self : ∀ n, m' = some n → n.phase = .fresh ∨ a.isPlaceholder = true →
      n.Clear a'.usage.gate j) : a'.Tidy light S (Function.update f j m') where
  known := mem_of_update T.known hj
  coherent := coherent
  balanced := balanced
  clear i n hn h := by
    obtain ⟨usage, rfl⟩ := used
    by_cases hij : i = j
    · subst hij
      rw [Function.update_self] at hn
      exact self n hn h
    · rw [Function.update_of_ne hij] at hn
      obtain ⟨slotless, held, released⟩ := T.clear i n hn h
      obtain ⟨sameHeld, sameReleased⟩ := others i hij
      exact ⟨slotless, mt sameHeld.mp held, mt sameReleased.mp released⟩

/-- A job changes, and the gate does not. -/
theorem keep (T : a.Tidy light S f) (hj : j ∈ S) (used : a.UsedAs a')
    (gate : a'.usage.gate = a.usage.gate)
    (slot : Member.flag (·.runReserved) m' = Member.flag (·.runReserved) (f j))
    (gone : m' = none → j ∉ a.usage.gate.held ∧ j ∉ a.usage.gate.released)
    (late : ∀ n m, m' = some n → f j = some m → n.phase = .fresh → m.phase = .fresh) :
    a'.Tidy light S (Function.update f j m') := by
  refine T.update hj used ?_ ?_ ?_ ?_
  · rw [gate]
    refine T.coherent.keep fun known => ?_
    obtain ⟨m, hm, slotless⟩ := known.elim (fun h => (T.coherent.held j h).2)
      (T.coherent.released j)
    rw [hm, Member.flag_some, slotless] at slot
    cases m' with
    | none =>
      obtain ⟨held, released⟩ := gone rfl
      exact absurd known (not_or.mpr ⟨held, released⟩)
    | some n => exact ⟨n, rfl, by simpa using slot⟩
  · intro h
    exact (T.balanced h).keep hj (congrArg _ gate) (congrArg _ gate) slot
  · intro i _
    rw [gate]
    exact ⟨.rfl, .rfl⟩
  · rintro n rfl hn
    rw [gate]
    cases hm : f j with
    | none =>
      obtain ⟨held, released⟩ := T.coherent.notMem_of_none hm
      exact ⟨by simpa [hm] using slot, held, released⟩
    | some m =>
      obtain ⟨slotless, held, released⟩ := T.clear j m hm (hn.imp_left (late n m rfl hm))
      exact ⟨by simpa [hm, slotless] using slot, held, released⟩

/-- A real account lets a job through. -/
theorem proceed {n : Member} (T : a.Tidy light S f) (hj : j ∈ S) (real : a.isPlaceholder = false)
    (unengaged : a.Unengaged (f j) j) (hg : a.enterGate j = (.proceed r, a'))
    (hr : n.binding.runReserved = r) (passed : n.phase ≠ .fresh)
    (few : light → headcount S (Function.update f j (some n)) < UInt32.size) :
    a'.Tidy light S (Function.update f j (some n)) := by
  have used := Account.usedAs_enterGate hg
  obtain ⟨hcap, -, rfl⟩ := Account.enterGate_proceed hg
  have coherent : a.usage.gate.Coherent (Function.update f j (some n)) := by
    refine T.coherent.keep fun known => ⟨n, rfl, ?_⟩
    rw [hr, hcap, ← Bool.not_eq_true]
    intro capped
    obtain ⟨held, released⟩ := unengaged.unknown capped
    exact known.elim held released
  refine T.update hj used (coherent.of_same rfl rfl) (fun h => ?_) (fun _ _ => ⟨.rfl, .rfl⟩) ?_
  · have le := coherent.reservations_add_held_le (mem_of_update T.known hj)
    exact (T.balanced h).proceed hj unengaged.slotless hr rfl rfl
      (((Nat.le_add_right ..).trans le).trans_lt (few h))
  · rintro _ ⟨⟩ h
    simp [passed, real] at h

/-- A real account holds a job. -/
theorem hold {n : Member} (T : a.Tidy light S f) (hj : j ∈ S) (real : a.isPlaceholder = false)
    (unengaged : a.Unengaged (f j) j) (hg : a.enterGate j = (.hold, a'))
    (hr : n.binding.runReserved = false) (passed : n.phase ≠ .fresh) :
    a'.Tidy light S (Function.update f j (some n)) := by
  have used := Account.usedAs_enterGate hg
  obtain ⟨held, released⟩ := unengaged.of_hold hg
  obtain ⟨-, rfl⟩ := Account.enterGate_hold hg
  have slot : Member.flag (·.runReserved) (some n) = Member.flag (·.runReserved) (f j) := by
    rw [unengaged.slotless, Member.flag_some, hr]
    rfl
  refine T.update hj used (T.coherent.hold held released hr)
    (fun h => (T.balanced h).keep hj rfl rfl slot) ?_ ?_
  · intro i hij
    exact ⟨by simp [Account.withGate, hij], .rfl⟩
  · rintro _ ⟨⟩ h
    simp [passed, real] at h

/-- A job that is not held runs. -/
theorem start {n : Member} (T : a.Tidy light S f) (hm : f j = some m)
    (held : j ∉ a.usage.gate.held) (hr : n.binding.runReserved = false) :
    (a.start j m.binding).Tidy light S (Function.update f j (some n)) := by
  have hj := T.known j m hm
  refine T.update hj ⟨_, rfl⟩ (T.coherent.freeSlot hr)
    (fun h => (T.balanced h).freeSlot T.coherent hj hm (by simp [hr])) ?_ ?_
  · intro i hij
    refine ⟨.rfl, ?_⟩
    simp [Account.start, Gate.started, Gate.mem_released_freeSlot, hij]
  · rintro _ ⟨⟩ -
    exact ⟨hr, held, fun h => (Gate.mem_released_freeSlot.mp h).1 rfl⟩

/-- A job leaves. -/
theorem leave (T : a.Tidy light S f) (hm : f j = some m)
    (hl : a.leave j m.binding ran = (freed, a')) : a'.Tidy light S (Function.update f j none) := by
  have hj := T.known j m hm
  have used := Account.usedAs_leave hl
  obtain ⟨-, rfl⟩ := Account.leave_eq hl
  refine T.update hj used T.coherent.withdraw (fun h => (T.balanced h).withdraw T.coherent hj hm) ?_
    (by simp)
  intro i hij
  constructor
  · simp [Gate.mem_held_withdraw, hij]
  · simp [Gate.mem_released_withdraw, hij]

/-- The next held job is released. -/
theorem releaseNext (T : a.Tidy light S f) (hr : a.releaseNext = (some n, a'))
    (few : light → headcount S f < UInt32.size) : a'.Tidy light S f where
  known := T.known
  coherent := T.coherent.releaseNext hr
  balanced h := by
    have le := (T.coherent.releaseNext hr).reservations_add_held_le T.known
    have notReleased := T.coherent.notMem_released_of_releaseNext hr
    obtain ⟨rest, -, -, rfl⟩ := Account.releaseNext_some hr
    exact (T.balanced h).release notReleased rfl rfl
      (((Nat.le_add_right ..).trans le).trans_lt (few h))
  clear i m hi h := by
    obtain ⟨rest, hh, -, rfl⟩ := Account.releaseNext_some hr
    obtain ⟨slotless, held, released⟩ := T.clear i m hi h
    rw [hh, List.mem_cons, not_or] at held
    refine ⟨slotless, held.2, fun hin => ?_⟩
    rcases Gate.mem_insert.mp hin with rfl | hin
    · exact held.1 rfl
    · exact released hin

/-- The release of the next held job is taken back. -/
theorem unrelease (T : a.Tidy light S f) (hr : a.releaseNext = (some n, a'))
    (few : light → headcount S f < UInt32.size) : (a'.unrelease n).Tidy light S f := by
  rw [Account.unrelease_of_releaseNext (T.coherent.notMem_released_of_releaseNext hr) hr]
  refine ⟨T.known, T.coherent.of_same rfl rfl, fun h => ?_, fun i m hi h => ?_⟩
  swap
  · obtain ⟨slotless, held, released⟩ := T.clear i m hi h
    exact ⟨slotless, held, released⟩
  -- the job was held, so one slot more could be counted
  have le := T.coherent.reservations_add_held_le T.known
  obtain ⟨rest, hh, -, -⟩ := Account.releaseNext_some hr
  have few := few h
  have balanced := T.balanced h
  rw [hh, List.length_cons] at le
  rw [Account.unreleased_eq (by rw [balanced]; omega)]
  exact balanced

end Account.Tidy

/-! ### Tidy worlds -/

/-- A job that came to the throttle is not new any more. -/
theorem Phase.next_ne_fresh {p : Phase} {topic : Topic} (o : Except HandlerError Reply)
    (h : p ≠ .fresh ∨ topic = .depend) : p.next topic o ≠ .fresh := by
  cases p <;> cases topic <;> rcases o with _ | _ | _ <;> simp_all [Phase.next]

/-- The calls that may come outside their phase where the throttle may come to a job again: it may
come at any time, and where it failed on a job before, the calls may come that follow when the job
passed it. -/
def Phase.resumes (p : Phase) : Topic → Bool
  | .depend => true
  | .priority | .priorityGet | .run | .inactive => p = .stopped
  | .validate | .new | .updateQueue | .queueUpdated => false

namespace World

variable {H : Type} {w w' : World H} {k : AccountKey} {l : LiveJob} {x : Option LiveJob}
  {b : JobBinding} {p : Phase} {real : Account} {light : AccountKey → Prop}

/-- Every account is tidy, and `light` tells where the counters can follow. -/
def Gated (w : World H) (light : AccountKey → Prop) : Prop :=
  ∀ k a, w.account k = some a → a.Tidy (light k) w.arrived (w.scene k).member

/-- The accounts are tidy and kept under their keys, the live jobs are known, and a job is bound to
an account that is there. -/
structure Tidy (w : World H) (light : AccountKey → Prop) : Prop where
  keyed : w.engine.ledger.Keyed
  known : ∀ j l, w.live j = some l → j ∈ w.arrived
  homed : ∀ j h, w.handleOf j = some h → ∃ a, w.account h.key = some a ∧ a.handle = h
  gated : w.Gated light

/-- The counters of the accounts can tell the number of their jobs, where `light` tells that they
can follow. -/
def Few (w : World H) (light : AccountKey → Prop) : Prop :=
  ∀ k, light k → (w.scene k).load < UInt32.size

theorem start_tidy (config : Config) (host : H) (audit : Option AuditTrail) :
    (start config host audit).Tidy light where
  keyed k a ha := by cases (account_start config host audit k).symm.trans ha
  known _ _ hl := by cases hl
  homed _ _ hj := by cases hj
  gated k a ha := by cases (account_start config host audit k).symm.trans ha

namespace Tidy

/-- An account that is not there has no jobs. -/
theorem member_of_none (hw : w.Tidy light) (hk : w.account k = none) (i : JobId) :
    (w.scene k).member i = none := by
  by_contra hne
  obtain ⟨m, hm⟩ := Option.ne_none_iff_exists'.mp hne
  have bound := accountOf_of_member hm
  rw [accountOf_eq] at bound
  obtain ⟨home, hh, rfl⟩ := Option.map_eq_some_iff.mp bound
  obtain ⟨a, ha, -⟩ := hw.homed i home hh
  simp [hk] at ha

/-- A live job is bound to the account that is kept under the key. -/
theorem bound (hw : w.Tidy light) (hb : w.engine.boundAccount l.storage = some (b, a)) :
    l.storage.binding = some b ∧ w.account b.account.key = some a := by
  obtain ⟨hb, ha⟩ := Engine.boundAccount_eq_some.mp hb
  exact ⟨hb, hw.keyed.kept ha⟩

/-- The engine finds no account for a live job only if the job is bound to none. -/
theorem binding_of_boundAccount (hw : w.Tidy light) (hl : w.live j = some l)
    (hb : w.engine.boundAccount l.storage = none) : l.storage.binding = none := by
  by_contra hne
  obtain ⟨b, hb'⟩ := Option.ne_none_iff_exists'.mp hne
  have home : w.handleOf j = some b.account := by
    rw [handleOf, storage_of_live hl, hb']
    rfl
  obtain ⟨a, ha, own⟩ := hw.homed j b.account home
  have there := own ▸ Ledger.object_of_account? ha
  simp [Engine.boundAccount_eq_some.mpr ⟨hb', there⟩] at hb

/-- A job that is new is not engaged. -/
theorem unengaged_of_fresh (hw : w.Tidy light) (hl : w.live j = some l) (hp : l.phase = .fresh)
    (hb : w.engine.boundAccount l.storage = some (b, a)) :
    a.Unengaged ((w.scene b.account.key).member j) j := by
  obtain ⟨hb, ha⟩ := hw.bound hb
  have hm := scene_member_of_binding hl hb
  obtain ⟨slotless, held, released⟩ := (hw.gated b.account.key a ha).clear j _ hm (.inl hp)
  exact ⟨by simpa [hm] using slotless, fun _ => ⟨held, released⟩⟩

/-! ### What calls leave -/

/-- A call that changes nothing that the accounts see. -/
theorem gated_of_same (hw : w.Tidy light) (hledger : w'.engine.ledger = w.engine.ledger)
    (hS : w'.arrived = w.arrived) (hlive : w'.live = Function.update w.live j x)
    (hx : ∀ k, (x.bind fun l => l.memberAt k) = (w.scene k).member j) : w'.Gated light := by
  intro k a ha
  rw [hS, scene_member_update hlive, hx, Function.update_eq_self]
  rw [account, hledger] at ha
  exact hw.gated k a ha

/-- A call that changes the phase of its job. -/
theorem gated_of_phase (hw : w.Tidy light) (hl : w.live j = some l)
    (hledger : w'.engine.ledger = w.engine.ledger) (hS : w'.arrived = w.arrived)
    (hlive : w'.live = Function.update w.live j (some { l with phase := p }))
    (late : p = .fresh → l.phase = .fresh) : w'.Gated light := by
  intro k a ha
  rw [account, hledger] at ha
  have T := hw.gated k a ha
  have before := scene_member_of_live (k := k) hl
  -- an account that sees the job sees it as before, in its new phase
  have after : ({ l with phase := p } : LiveJob).memberAt k =
      ((w.scene k).member j).map fun m => { m with phase := p } := by
    rw [before, LiveJob.memberAt, LiveJob.memberAt, Option.map_map]
    rfl
  rw [hS, scene_member_update hlive, Option.bind_some, after]
  refine T.keep (hw.known j l hl) (.refl a) rfl ?_ ?_ ?_
  · cases (w.scene k).member j <;> rfl
  · intro gone
    exact T.coherent.notMem_of_none (Option.map_eq_none_iff.mp gone)
  · intro n m hn hm hp
    rw [hm] at hn
    cases hn
    rw [before] at hm
    obtain ⟨_, -, -, rfl⟩ := LiveJob.memberAt_eq_some.mp hm
    exact late hp

/-- The counters that can follow can tell the jobs of an account with one job changed. -/
theorem few_update (few : w'.Few light) (hS : w'.arrived = w.arrived)
    (hlive : w'.live = Function.update w.live j x) (hx : SeenOnly x m' k) (h : light k) :
    headcount w.arrived (Function.update (w.scene k).member j m') < UInt32.size := by
  have seen : (w'.scene k).member = Function.update (w.scene k).member j m' := by
    rw [scene_member_update hlive, hx, if_pos rfl]
  rw [← seen, ← hS]
  exact few k h

/-- A call that puts the account of its job back. -/
theorem gated_of_put (hw : w.Tidy light) (hl : w.live j = some l)
    (hb : w.engine.boundAccount l.storage = some (b, a)) (used : a.UsedAs a')
    (hledger : w'.engine.ledger = w.engine.ledger.put a') (hS : w'.arrived = w.arrived)
    (hlive : w'.live = Function.update w.live j x) (hx : SeenOnly x m' b.account.key)
    (T : a'.Tidy (light b.account.key) w.arrived
      (Function.update (w.scene b.account.key).member j m')) : w'.Gated light := by
  obtain ⟨hb, ha⟩ := hw.bound hb
  have own : a'.handle = a.handle := by
    obtain ⟨usage, rfl⟩ := used
    rfl
  intro k a₁ ha₁
  rw [hS, scene_member_update hlive, hx k]
  rw [account, hledger, Ledger.account?_put_of_kept ha own] at ha₁
  by_cases hk : b.account.key = k
  · subst hk
    rw [if_pos rfl] at ha₁ ⊢
    cases ha₁
    exact T
  · rw [if_neg hk] at ha₁ ⊢
    have absent : (w.scene k).member j = none :=
      (scene_member_of_live hl).trans (LiveJob.memberAt_of_ne hb hk)
    rw [← absent, Function.update_eq_self]
    exact hw.gated k a₁ ha₁

variable {ledger : Ledger} {host : H} {s : JobStorage} {rs : List HostRequest} {job : Job}

theorem depend_gated [Scheduler H] {outcome : Except HandlerError Engine.DependOutcome}
    (hw : w.Tidy light) (hl : w.live job.id = some l)
    (unengaged : ∀ b a, w.engine.boundAccount l.storage = some (b, a) →
      a.Unengaged ((w.scene b.account.key).member job.id) job.id)
    (h : Engine.DependEffect w.engine job l.storage outcome rs host ledger s)
    (hledger : w'.engine.ledger = ledger) (hS : w'.arrived = w.arrived)
    (hlive : w'.live = Function.update w.live job.id (some { l with phase := p, storage := s }))
    (passed : p ≠ .fresh) (few : w'.Few light) : w'.Gated light := by
  have hj := hw.known job.id l hl
  cases h with
  | unbound => exact hw.gated_of_phase hl hledger hS hlive (absurd · passed)
  | @waved b a hb hp =>
    obtain ⟨hb', ha⟩ := hw.bound hb
    have still : w.engine.ledger.put a = w.engine.ledger :=
      Ledger.put_eq_self (Engine.boundAccount_eq_some.mp hb).2
    refine hw.gated_of_put hl hb (.refl a) (hledger.trans still.symm) hS hlive
      (seenOnly_of_marked (b := { b with runReserved := false }) rfl rfl)
      ((hw.gated _ a ha).keep hj (.refl a) rfl ?_ (by simp) ?_)
    · rw [(unengaged b a hb).slotless]
      rfl
    · rintro _ m ⟨⟩ -
      exact (absurd · passed)
  | @admitted b a a' r hb hp hg =>
    obtain ⟨-, ha⟩ := hw.bound hb
    have seen := few_update (k := b.account.key) few hS hlive
      (seenOnly_of_marked (b := { b with runReserved := r }) rfl rfl)
    exact hw.gated_of_put hl hb (Account.usedAs_enterGate hg) hledger hS hlive
      (seenOnly_of_marked (b := { b with runReserved := r }) rfl rfl)
      ((hw.gated _ a ha).proceed hj hp (unengaged b a hb) hg rfl passed seen)
  | @held b a a' _ hb hp hg =>
    obtain ⟨hb', ha⟩ := hw.bound hb
    have slotless : b.runReserved = false := by
      simpa [scene_member_of_binding hl hb'] using (unengaged b a hb).slotless
    exact hw.gated_of_put hl hb (Account.usedAs_enterGate hg) hledger hS hlive
      (seenOnly_of_binding hb')
      ((hw.gated _ a ha).hold hj hp (unengaged b a hb) hg slotless passed)
  | @refused b a a' _ _ hb hp hg =>
    obtain ⟨-, ha⟩ := hw.bound hb
    obtain ⟨held, released⟩ := (unengaged b a hb).of_hold hg
    rw [Engine.put_unhold (Ledger.object_of_account? ha) held released hg] at hledger
    exact hw.gated_of_phase hl hledger hS hlive (absurd · passed)

/-- A job that moves from a placeholder to its real account leaves the one and comes to the
other. -/
theorem moved_gated {decision : Gate.Decision} {factor : Int64} {b' : JobBinding}
    (hw : w.Tidy light) (hl : w.live job.id = some l)
    (hb : w.engine.boundAccount l.storage = some (b, a))
    (hp : a.isPlaceholder = true) (hf : w.engine.ledger.lookup job.userid job.bank = .found real)
    (hg : real.enterGate job.id = (decision, a')) (hs : s.binding = some b')
    (hk' : b'.account = real.handle)
    (hr : decision = .proceed b'.runReserved ∨ decision = .hold ∧ b'.runReserved = false)
    (hledger : w'.engine.ledger = w.engine.ledger.put (a'.countActive.withQueueFactor factor))
    (hS : w'.arrived = w.arrived)
    (hlive : w'.live = Function.update w.live job.id (some { l with phase := p, storage := s }))
    (passed : p ≠ .fresh) (few : w'.Few light) : w'.Gated light := by
  obtain ⟨hb', ha⟩ := hw.bound hb
  have hreal := Ledger.isPlaceholder_of_found hf
  have hfound : w.account real.key = some real := (Ledger.account?_of_lookup (.inl hf)).1
  have absent := absent_of_found hl hb' ha hp hf
  have hj := hw.known job.id l hl
  have member := scene_member_of_binding hl hb'
  have clear := (hw.gated _ a ha).clear job.id _ member (.inr hp)
  have slotless : b.runReserved = false := clear.slotless
  have own : (a'.countActive.withQueueFactor factor).handle = real.handle := by
    obtain ⟨usage, rfl⟩ := Account.usedAs_enterGate hg
    rfl
  have seen : SeenOnly (some { l with phase := p, storage := s })
      (some ⟨p, b', s.hasDependency heldLabel⟩) real.key := by
    have key : b'.account.key = real.key := congrArg Handle.key hk'
    exact key ▸ seenOnly_of_binding hs
  intro k a₁ ha₁
  rw [hS, scene_member_update hlive, seen k]
  rw [account, hledger, Ledger.account?_put_of_kept hfound own] at ha₁
  by_cases hk : real.key = k
  · subst hk
    rw [if_pos rfl] at ha₁ ⊢
    cases ha₁
    have T := hw.gated _ real hfound
    have unengaged : real.Unengaged ((w.scene real.key).member job.id) job.id := by
      rw [absent]
      exact ⟨rfl, fun _ => T.coherent.notMem_of_none absent⟩
    have T' : a'.Tidy (light real.key) w.arrived (Function.update (w.scene real.key).member job.id
        (some ⟨p, b', s.hasDependency heldLabel⟩)) := by
      rcases hr with rfl | ⟨rfl, hr⟩
      · exact T.proceed hj hreal unengaged hg rfl passed (few_update few hS hlive seen)
      · exact T.hold hj hreal unengaged hg hr passed
    exact ⟨T'.known, T'.coherent, T'.balanced, T'.clear⟩
  · rw [if_neg hk] at ha₁ ⊢
    have T := hw.gated k a₁ ha₁
    by_cases hk₀ : b.account.key = k
    · -- the placeholder that the job comes from does not know it
      subst hk₀
      cases ha.symm.trans ha₁
      refine T.keep hj (.refl a) rfl ?_ (fun _ => ⟨clear.held, clear.released⟩) (by simp)
      simp [member, slotless]
    · have unseen : (w.scene k).member job.id = none :=
        (scene_member_of_live hl).trans (LiveJob.memberAt_of_ne hb' hk₀)
      rw [← unseen, Function.update_eq_self]
      exact T

theorem priority_gated [Scheduler H] {outcome : Except HandlerError Engine.PriorityOutcome}
    (hw : w.Tidy light) (hl : w.live job.id = some l)
    (h : Engine.PriorityEffect w.engine job l.storage outcome rs host ledger s)
    (hledger : w'.engine.ledger = ledger) (hS : w'.arrived = w.arrived)
    (hlive : w'.live = Function.update w.live job.id (some { l with phase := p, storage := s }))
    (passed : p ≠ .fresh) (few : w'.Few light) : w'.Gated light := by
  cases h with
  | unbound | prioritized | stayed =>
    exact hw.gated_of_phase hl hledger hS hlive (absurd · passed)
  | @refused b a real a' _ _ hb hp hf hg =>
    have hfound : w.account real.key = some real := (Ledger.account?_of_lookup (.inl hf)).1
    -- the job is bound to a placeholder, so the gate of the real account does not know it
    have absent := absent_of_found hl (hw.bound hb).1 (hw.bound hb).2 hp hf
    obtain ⟨held, released⟩ := (hw.gated _ real hfound).coherent.notMem_of_none absent
    rw [Engine.put_unhold (Ledger.object_of_account? hfound) held released hg] at hledger
    exact hw.gated_of_phase hl hledger hS hlive (absurd · passed)
  | @rebound b a real a' decision _ _ _ _ _ hb hp hf hg =>
    obtain ⟨hb', ha⟩ := hw.bound hb
    have clear := (hw.gated _ a ha).clear job.id _ (scene_member_of_binding hl hb') (.inr hp)
    have own : a'.handle = real.handle := by
      obtain ⟨usage, rfl⟩ := Account.usedAs_enterGate hg
      rfl
    refine hw.moved_gated hl hb hp hf hg (Engine.reboundStorage_binding ..)
      ((Engine.rebound_account ..).trans own) ?_ hledger hS hlive passed few
    cases decision with
    | proceed r => exact .inl rfl
    | hold => exact .inr ⟨rfl, clear.slotless⟩

theorem run_gated (hw : w.Tidy light) (hl : w.live job.id = some l) (hh : w.holds job.id = false)
    (h : Engine.RunEffect w.engine job l.storage ledger s)
    (hledger : w'.engine.ledger = ledger) (hS : w'.arrived = w.arrived)
    (hlive : w'.live = Function.update w.live job.id (some { l with phase := p, storage := s }))
    (passed : p ≠ .fresh) : w'.Gated light := by
  cases h with
  | unbound => exact hw.gated_of_phase hl hledger hS hlive (absurd · passed)
  | @started b a hb =>
    obtain ⟨hb', ha⟩ := hw.bound hb
    have held : job.id ∉ a.usage.gate.held := by
      rw [holds, storage_of_live hl, hb] at hh
      simpa [Gate.isHeld] using hh
    exact hw.gated_of_put hl hb ⟨_, rfl⟩ hledger hS hlive
      (seenOnly_of_marked (b := { b with runReserved := false, countedRunning := true }) rfl rfl)
      ((hw.gated _ a ha).start (scene_member_of_binding hl hb') held rfl)

theorem inactive_gated [Scheduler H] {outcome : Except HandlerError Unit} (hw : w.Tidy light)
    (hl : w.live job.id = some l)
    (h : Engine.InactiveEffect w.engine job l.storage outcome rs host ledger s)
    (hledger : w'.engine.ledger = ledger) (hS : w'.arrived = w.arrived)
    (hlive : w'.live = Function.update w.live job.id none) (few : w'.Few light) :
    w'.Gated light := by
  have leaves : ∀ {b a a₁ freed}, w.engine.boundAccount l.storage = some (b, a) →
      a.leave job.id b job.allocObserved = (freed, a₁) →
      a₁.Tidy (light b.account.key) w.arrived
        (Function.update (w.scene b.account.key).member job.id none) := by
    intro b a a₁ freed hb hleave
    obtain ⟨hb', ha⟩ := hw.bound hb
    exact (hw.gated _ a ha).leave (scene_member_of_binding hl hb') hleave
  cases h with
  | unbound hb =>
    refine hw.gated_of_same hledger hS hlive fun k => ?_
    exact (scene_member_of_unbound hl (hw.binding_of_boundAccount hl hb)).symm
  | left hb hleave =>
    exact hw.gated_of_put hl hb (Account.usedAs_leave hleave) hledger hS hlive (seenOnly_gone _)
      (leaves hb hleave)
  | freed hb hleave hr =>
    obtain ⟨-, rfl⟩ := Account.releaseNext_none hr
    exact hw.gated_of_put hl hb (Account.usedAs_leave hleave) hledger hS hlive (seenOnly_gone _)
      (leaves hb hleave)
  | released hb hleave hr =>
    exact hw.gated_of_put hl hb
      ((Account.usedAs_leave hleave).trans (Account.usedAs_releaseNext hr)) hledger hS hlive
      (seenOnly_gone _)
      ((leaves hb hleave).releaseNext hr (few_update few hS hlive (seenOnly_gone _)))
  | kept hb hleave hr =>
    exact hw.gated_of_put hl hb
      (((Account.usedAs_leave hleave).trans (Account.usedAs_releaseNext hr)).trans
        (Account.usedAs_withGate _ _)) hledger hS hlive (seenOnly_gone _)
      ((leaves hb hleave).unrelease hr (few_update few hS hlive (seenOnly_gone _)))

theorem queueUpdated_gated (hw : w.Tidy light) (hl : w.live job.id = some l)
    (h : Engine.QueueUpdatedEffect w.engine l.storage ledger s)
    (hledger : w'.engine.ledger = ledger) (hS : w'.arrived = w.arrived)
    (hlive : w'.live = Function.update w.live job.id (some { l with storage := s })) :
    w'.Gated light := by
  cases h with
  | ignored => exact hw.gated_of_phase hl hledger hS hlive id
  | @settled b a factor hb hp =>
    obtain ⟨hb', ha⟩ := hw.bound hb
    have member := scene_member_of_binding hl hb'
    refine hw.gated_of_put hl hb ⟨_, rfl⟩ hledger hS hlive
      (seenOnly_of_marked (b := { b with queueFactor := factor }) rfl rfl)
      ((hw.gated _ a ha).keep (hw.known job.id l hl) ⟨_, rfl⟩ rfl ?_ (by simp) ?_)
    · rw [member]
      rfl
    · rintro _ m ⟨⟩ hm
      cases member.symm.trans hm
      exact id

/-- A placeholder that is created is tidy. -/
theorem tidy_of_founded {ledger₀ : Ledger} (hw : w.Tidy light) (h₀ : w.Founded ledger₀)
    (ha : ledger₀.account? k = some a) : a.Tidy (light k) w.arrived (w.scene k).member := by
  rcases h₀ k with same | ⟨_, _, hnone, hcreated, -⟩
  · exact hw.gated k a (same.symm.trans ha)
  · cases hcreated.symm.trans ha
    exact .initial rfl (hw.member_of_none hnone)

theorem new_gated [Scheduler H] {host₀ : H} {ledger₀ : Ledger} {outcome : Except HandlerError Unit}
    {byDefault : Bool} {home : Handle} (hw : w.Tidy light) (hl : w.live job.id = none)
    (h₀ : w.Founded ledger₀)
    (h : Engine.NewJobEffect host₀ job ledger₀ { account := home } byDefault {} outcome rs host
      ledger s)
    (hledger : w'.engine.ledger = ledger) (hS : w'.arrived = insert job.id w.arrived)
    (hlive : w'.live = Function.update w.live job.id (some ⟨job.userid, job.bank, .fresh, s⟩)) :
    w'.Gated light := by
  -- the gates are as they were, and if the job is bound, then it has no slot
  have gates : ∀ (k : AccountKey) (a : Account), ledger.account? k = some a →
      ∃ a₀, ledger₀.account? k = some a₀ ∧ a₀.UsedAs a ∧ a.usage.gate = a₀.usage.gate := by
    intro k a ha
    cases h with
    | rejected | placed | detached => exact ⟨a, ha, .refl a, rfl⟩
    | @enrolled a₀ factor _ _ _ ha₀ =>
      change (ledger₀.put (a₀.countActive.withQueueFactor factor)).account? k = some a at ha
      rw [Ledger.account?_put] at ha
      split at ha
      · rename_i hk
        cases ha
        refine ⟨a₀, ?_, ⟨_, rfl⟩, rfl⟩
        have there : ledger₀.handle? k = some a₀.handle := hk
        rw [Ledger.account?_of_handle? there, ledger₀.own _ a₀ ha₀, ha₀]
      · exact ⟨a, ha, .refl a, rfl⟩
  have slotless : ∀ b, s.binding = some b → b.runReserved = false := by
    intro b hb
    cases h with
    | rejected | detached => cases hb
    | placed | enrolled =>
      cases hb
      rfl
  have absent : ∀ k, (w.scene k).member job.id = none := fun k => by simp [scene, hl]
  intro k a ha
  rw [account, hledger] at ha
  obtain ⟨a₀, ha₀, used, gate⟩ := gates k a ha
  rw [hS, scene_member_update hlive, Option.bind_some]
  have T := (hw.tidy_of_founded h₀ ha₀).mono (Finset.subset_insert job.id _)
  refine T.keep (Finset.mem_insert_self ..) used gate ?_ ?_ ?_
  · rw [absent, Member.flag_none]
    cases hm : LiveJob.memberAt ⟨job.userid, job.bank, .fresh, s⟩ k with
    | none => rfl
    | some m =>
      obtain ⟨b, hb, -, rfl⟩ := LiveJob.memberAt_eq_some.mp hm
      simp [slotless b hb]
  · exact fun _ => T.coherent.notMem_of_none (absent k)
  · intro n m _ hm
    cases (absent k).symm.trans hm

end Tidy

/-! ### Throttling again -/

/-- The job has a slot, or is at the gate of an account with a cap, which held or released it. -/
def engaged (w : World H) (j : JobId) : Bool :=
  (w.engine.boundAccount (w.storage j)).any fun (b, a) => b.runReserved ||
    a.terms.runLimit.cap.isSome && (a.usage.gate.isHeld j || a.usage.gate.released.contains j)

/-- A live job gets a call, from its own user and bank, that may come outside its phase. -/
def Resumes (w : World H) : Event H → Prop
  | .call topic _ job => ∃ l ∈ w.live job.id, l.userid = job.userid ∧ l.bank = job.bank ∧
      l.phase.resumes topic = true ∧ (topic = .run → w.holds job.id = false)
  | .feed _ _ | .reprioritize | .scheduler _ => False

/-- In this event, the throttle comes again to a job that is engaged. -/
def reengages (w : World H) : Event H → Bool
  | .call .depend _ job =>
    (w.live job.id).any fun l => decide (l.phase ≠ .fresh) && w.engaged job.id
  | _ => false

/-- A job that is not engaged is so to its account. -/
theorem unengaged_of_engaged (hl : w.live j = some l) (h : w.engaged j = false)
    (hb : w.engine.boundAccount l.storage = some (b, a)) :
    a.Unengaged ((w.scene b.account.key).member j) j := by
  have hm := scene_member_of_binding hl (Engine.boundAccount_eq_some.mp hb).1
  rw [engaged, storage_of_live hl, hb] at h
  simp only [Option.any_some, Bool.or_eq_false_iff, Bool.and_eq_false_imp] at h
  obtain ⟨slotless, unknown⟩ := h
  refine ⟨by simpa [hm] using slotless, fun hc => ?_⟩
  obtain ⟨held, released⟩ := unknown hc
  constructor
  · simpa [Gate.isHeld] using held
  · rw [← Std.ExtTreeSet.contains_iff_mem, released]
    simp

variable [Scheduler H] {ev : Event H} {topic : Topic} {args : Json} {job : Job}

/-- The host's order, where the throttle may come to a live job again. -/
def RepeatingOrder (w : World H) (ev : Event H) : Prop := w.HostOrder ev ∨ w.Resumes ev

/-- The host's order, where the throttle may come again to a live job that is not engaged. -/
def SparingOrder (w : World H) (ev : Event H) : Prop :=
  w.RepeatingOrder ev ∧ w.reengages ev = false

omit [Scheduler H] in
instance (w : World H) : DecidablePred w.Resumes
  | .call _ _ _ => inferInstanceAs (Decidable (∃ l ∈ _, _))
  | .feed _ _ | .reprioritize | .scheduler _ => .isFalse id

instance (w : World H) : DecidablePred w.RepeatingOrder := fun ev =>
  inferInstanceAs (Decidable (w.HostOrder ev ∨ w.Resumes ev))

instance (w : World H) : DecidablePred w.SparingOrder := fun ev =>
  inferInstanceAs (Decidable (w.RepeatingOrder ev ∧ w.reengages ev = false))

omit [Scheduler H] in
theorem RepeatingOrder.live (h : w.RepeatingOrder (.call topic args job))
    (hvalidate : topic ≠ .validate) (hnew : topic ≠ .new) :
    ∃ l, w.live job.id = some l ∧
      (l.phase.admits topic = true ∨ l.phase.resumes topic = true) ∧
      (topic = .run → w.holds job.id = false) := by
  rcases h with h | ⟨l, hl, -, -, hp, hh⟩
  · cases topic with
    | validate => exact absurd rfl hvalidate
    | new => exact absurd rfl hnew
    | depend | priority | priorityGet | run | inactive | updateQueue | queueUpdated =>
      obtain ⟨l, hl, due⟩ := h
      exact ⟨l, hl, .inl due.phase, due.notHeld⟩
  · exact ⟨l, hl, .inr hp, hh⟩

namespace Tidy

/-- The feed changes the terms of accounts, and not their gates. -/
theorem feed_gated (hw : w.Tidy light) (kind : FeedKind) (rows : List Json) :
    (w.after (.feed kind rows)).Gated light := by
  intro k a ha
  rw [account_after_feed] at ha
  change a.Tidy (light k) w.arrived (w.scene k).member
  split at ha
  · exact hw.gated k a ha
  · cases ha
    cases hk : w.account k with
    | none => exact .initial rfl (hw.member_of_none hk)
    | some a₀ => exact (hw.gated k a₀ hk).of_real rfl rfl

theorem call_gated (hw : w.Tidy light) (h : w.SparingOrder (.call topic args job))
    (few : (w.after (.call topic args job)).Few light) :
    (w.after (.call topic args job)).Gated light := by
  obtain ⟨due, sparing⟩ := h
  have passed : ∀ {l : LiveJob}, (l.phase.admits topic = true ∨ l.phase.resumes topic = true) →
      (topic = .priority ∨ topic = .priorityGet ∨ topic = .run) → l.phase ≠ .fresh := by
    rintro l hp (rfl | rfl | rfl) fresh
    all_goals simp [fresh, Phase.admits, Phase.resumes] at hp
  cases topic with
  | validate =>
    intro k a ha
    rw [after_call_arrived (by simp), scene_member_update after_validate_live]
    change a.Tidy (light k) w.arrived
      (Function.update (w.scene k).member job.id ((w.scene k).member job.id))
    rw [Function.update_eq_self]
    exact hw.tidy_of_founded (founded_validate job _) ha
  | new =>
    have unknown : job.id ∉ w.arrived := by
      rcases due with h | ⟨l, -, -, -, hp, -⟩
      · exact h
      · cases hp
    have hl : w.live job.id = none := not_live_of_known hw.known unknown
    obtain ⟨home, binding, -⟩ := w.engine.startBinding_unbound job (s := {}) rfl
    obtain ⟨rs, effect⟩ := w.engine.newJob_effect job {}
    rw [binding] at effect
    exact hw.new_gated hl (founded_startBinding job rfl) effect (congrArg _ (after_new_engine _ hl))
      rfl (after_new_live hl)
  | depend =>
    obtain ⟨l, hl, -⟩ := due.live (by simp) (by simp)
    obtain ⟨rs, effect⟩ := w.engine.depend_effect job l.storage
    refine hw.depend_gated hl (fun b a hb => ?_) effect (after_call_ledger hl)
      (after_call_arrived (by simp)) (after_call_live hl (by simp) (by simp) (by simp))
      (Phase.next_ne_fresh _ (.inr rfl)) few
    by_cases hp : l.phase = .fresh
    · exact hw.unengaged_of_fresh hl hp hb
    · exact unengaged_of_engaged hl (by simpa [reengages, hl, hp] using sparing) hb
  | priority | priorityGet =>
    obtain ⟨l, hl, hp, -⟩ := due.live (by simp) (by simp)
    obtain ⟨rs, effect⟩ := w.engine.priority_effect job l.storage
    exact hw.priority_gated hl effect (after_call_ledger hl) (after_call_arrived (by simp))
      (after_call_live hl (by simp) (by simp) (by simp))
      (Phase.next_ne_fresh _ (.inl (passed hp (by simp)))) few
  | run =>
    obtain ⟨l, hl, hp, hh⟩ := due.live (by simp) (by simp)
    exact hw.run_gated hl (hh rfl) (w.engine.run_effect job l.storage) (after_call_ledger hl)
      (after_call_arrived (by simp)) (after_call_live hl (by simp) (by simp) (by simp))
      (Phase.next_ne_fresh _ (.inl (passed hp (by simp))))
  | inactive =>
    obtain ⟨l, hl, -⟩ := due.live (by simp) (by simp)
    obtain ⟨rs, effect⟩ := w.engine.inactive_effect job l.storage
    exact hw.inactive_gated hl effect (after_call_ledger hl) (after_call_arrived (by simp))
      after_inactive_live few
  | updateQueue =>
    obtain ⟨l, hl, -⟩ := due.live (by simp) (by simp)
    obtain ⟨hledger, -, hstorage⟩ :=
      w.engine.updateQueue_effect job l.storage (Engine.proposedQueue args)
    have live : (w.after (.call .updateQueue args job)).live = _ :=
      after_call_live hl (by simp) (by simp) (by simp)
    have same : (w.engine.stepOf .updateQueue args job l.storage).storage = l.storage := hstorage
    rw [Phase.next_updateQueue, same] at live
    exact hw.gated_of_phase hl ((after_call_ledger hl).trans hledger) (after_call_arrived (by simp))
      live id
  | queueUpdated =>
    obtain ⟨l, hl, -⟩ := due.live (by simp) (by simp)
    have live : (w.after (.call .queueUpdated args job)).live = _ :=
      after_call_live hl (by simp) (by simp) (by simp)
    rw [Phase.next_queueUpdated] at live
    exact hw.queueUpdated_gated hl (w.engine.queueUpdated_effect job l.storage)
      (after_call_ledger hl) (after_call_arrived (by simp)) live

/-- A job is bound to an account that is there, whatever happens. -/
theorem homed_after (hw : w.Tidy light) (j : JobId) (home : Handle)
    (hh : (w.after ev).handleOf j = some home) :
    ∃ a, (w.after ev).account home.key = some a ∧ a.handle = home := by
  by_cases before : w.handleOf j = some home
  · obtain ⟨a, ha, own⟩ := hw.homed j home before
    obtain ⟨a', ha', same⟩ : ∃ a', (w.after ev).account home.key = some a' ∧
      a'.handle = a.handle := exists_account_after ha
    exact ⟨a', ha', same.trans own⟩
  · obtain ⟨_, _, _, -, -, -, -, there⟩ := home_of_handleOf hh before
    exact there

theorem after (hw : w.Tidy light) (h : w.SparingOrder ev) (few : (w.after ev).Few light) :
    (w.after ev).Tidy light where
  keyed := keyed_after hw.keyed
  known := known_after hw.known
  homed := hw.homed_after
  gated := by
    cases ev with
    | feed kind rows => exact hw.feed_gated kind rows
    | reprioritize | scheduler => exact hw.gated
    | call => exact hw.call_gated h few

end Tidy

theorem Reached.tidy (h : w.Reached SparingOrder) : w.Tidy fun _ => False :=
  h.invariant (I := fun w => w.Tidy fun _ => False) start_tidy fun _ _ hw h =>
    hw.after h fun _ => False.elim

theorem Reached.tidy_of_light (h : w.Reached (LightOrder k SparingOrder)) : w.Tidy (· = k) := by
  refine h.invariant (I := fun w => w.Tidy (· = k)) start_tidy fun w ev hw h => ?_
  refine hw.after h.1 fun _ at_k => ?_
  subst at_k
  exact (card_boundJobs (known_after hw.known) ..).symm.trans_lt h.2

/-! ### Reservations -/

omit [Scheduler H] in
/-- Each job is at one place of the gate of the account, or at none. -/
structure Placed (w : World H) (k : AccountKey) (a : Account) : Prop where
  /-- No job is held twice. -/
  once : a.usage.gate.held.Nodup
  /-- A held job has no slot. -/
  held : ∀ j ∈ a.usage.gate.held,
    j ∉ a.usage.gate.released ∧ j ∉ w.boundJobs k (·.runReserved)
  /-- A released job has no second slot. -/
  single : ∀ j ∈ a.usage.gate.released, j ∉ w.boundJobs k (·.runReserved)
  /-- The gate knows only live jobs that are bound to the account. -/
  own : ∀ j, j ∈ a.usage.gate.held ∨ j ∈ a.usage.gate.released ∨
    j ∈ w.boundJobs k (·.runReserved) → (w.live j).isSome = true ∧ w.accountOf j = some k

omit [Scheduler H] in
/-- The gate of the account keeps its books. -/
structure Reserves (w : World H) (k : AccountKey) (a : Account) : Prop extends w.Placed k a where
  /-- The reserved slots are those of the jobs that say of themselves that they have one, and of the
  released ones. -/
  total : a.usage.gate.reserved.toNat =
    (w.boundJobs k (·.runReserved)).card + a.usage.gate.released.size

omit [Scheduler H] in
theorem Tidy.placed (hw : w.Tidy light) (ha : w.account k = some a) : w.Placed k a := by
  have coherent := (hw.gated k a ha).coherent
  have slotless : ∀ {j}, (∃ m, (w.scene k).member j = some m ∧ m.binding.runReserved = false) →
      j ∉ w.boundJobs k (·.runReserved) := by
    rintro j ⟨m, hm, slotless⟩ hj
    obtain ⟨m', hm', reserved⟩ := (mem_boundJobs_iff hw.known).mp hj
    cases hm.symm.trans hm'
    simp [slotless] at reserved
  refine ⟨coherent.nodup, fun j hj => ?_, fun j hj => slotless (coherent.released j hj),
    fun j hj => ?_⟩
  · obtain ⟨released, seen⟩ := coherent.held j hj
    exact ⟨released, slotless seen⟩
  · obtain ⟨m, hm⟩ : ∃ m, (w.scene k).member j = some m := by
      rcases hj with hj | hj | hj
      · exact (coherent.held j hj).2.imp fun _ h => h.1
      · exact (coherent.released j hj).imp fun _ h => h.1
      · exact ((mem_boundJobs_iff hw.known).mp hj).imp fun _ h => h.1
    obtain ⟨l, -, hl, -⟩ := member_eq_some.mp hm
    exact ⟨by rw [hl]; rfl, accountOf_of_member hm⟩

omit [Scheduler H] in
theorem Tidy.reserves (hw : w.Tidy light) (ha : w.account k = some a) (followed : light k) :
    w.Reserves k a where
  toPlaced := hw.placed ha
  total := by
    rw [card_boundJobs hw.known]
    exact (hw.gated k a ha).balanced followed

omit [Scheduler H] in
/-- Where no job is left, no slot is reserved. -/
theorem Reserves.of_idle (R : w.Reserves k a) (idle : ∀ j, w.accountOf j ≠ some k) :
    a.usage.gate.reserved = 0 := by
  rw [← UInt32.toNat_inj]
  have jobs : w.boundJobs k (·.runReserved) = ∅ := by
    refine Finset.eq_empty_of_forall_notMem fun j hj => ?_
    exact idle j (R.own j (.inr (.inr hj))).2
  have released : a.usage.gate.released.size = 0 := by
    by_contra hne
    obtain ⟨j, hj⟩ := Gate.exists_mem_of_size_pos (Nat.pos_of_ne_zero hne)
    exact idle j (R.own j (.inr (.inl hj))).2
  rw [R.total, jobs, released]
  rfl

/-- As long as the throttle does not come again to a job that is engaged, each job is at one place
of a gate. The gate of an account keeps its books if the run is one that the account's counters can
follow, and where no job is left at that account, no slot is reserved. -/
theorem Reached.reservations_exact (h : w.Reached SparingOrder) (ha : w.account k = some a) :
    w.Placed k a ∧ (w.Reached (LightOrder k SparingOrder) →
      w.Reserves k a ∧ ((∀ j, w.accountOf j ≠ some k) → a.usage.gate.reserved = 0)) := by
  refine ⟨h.tidy.placed ha, fun light => ?_⟩
  have R := light.tidy_of_light.reserves ha rfl
  exact ⟨R, R.of_idle⟩

/-! ### A sample -/

namespace Sample

/-- A job passes the throttle without a cap. When a cap was set, the throttle comes to it again, and
a slot is reserved for it. The next job is held. -/
def throttledAgain : List (Event Host) :=
  [.feed .accounts [record 0], .call .new .null (Sample.job 7),
   .call .depend .null (Sample.job 7), .feed .accounts [record 1],
   .call .depend .null (Sample.job 7), .call .new .null (Sample.job 8),
   .call .depend .null (Sample.job 8)]

/-- The throttle comes twice to a job that has a slot under a cap of two, and then the job
leaves. -/
def throttledTwice : List (Event Host) :=
  [.feed .accounts [record 2], .call .new .null (Sample.job 7),
   .call .depend .null (Sample.job 7), .call .depend .null (Sample.job 7),
   .call .inactive .null (Sample.job 7)]

end Sample

theorem sample_reserves : (Sample.start.afterAll Sample.throttledAgain).Reached SparingOrder ∧
    ∃ a, (Sample.start.afterAll Sample.throttledAgain).account Sample.key = some a ∧
      (a.usage.gate.held, a.usage.gate.reserved) = ([8], 1) ∧
      (Sample.start.afterAll Sample.throttledAgain).Reserves Sample.key a := by
  have light : (Sample.start.afterAll Sample.throttledAgain).Reached
      (LightOrder Sample.key SparingOrder) :=
    ⟨Config.default, {}, none, Sample.throttledAgain, by decide +kernel, rfl⟩
  have reached := light.mono LightOrder.order
  have seen : ((Sample.start.afterAll Sample.throttledAgain).account Sample.key).map
      (fun a => (a.usage.gate.held, a.usage.gate.reserved)) = some ([8], 1) := by
    decide +kernel
  obtain ⟨a, ha, hseen⟩ := Option.map_eq_some_iff.mp seen
  exact ⟨reached, a, ha, hseen, ((reached.reservations_exact ha).2 light).1⟩

/-- Where the throttle comes twice to a job under a cap, two slots are reserved for it, and one of
them is still reserved when this job, the only one that there was, left. -/
theorem slot_lost : (Sample.start.afterAll Sample.throttledTwice).Reached RepeatingOrder ∧
    (Sample.start.afterAll Sample.throttledTwice).arrived = {7} ∧
    (Sample.start.afterAll Sample.throttledTwice).live 7 = none ∧
    ∃ a, (Sample.start.afterAll Sample.throttledTwice).account Sample.key = some a ∧
      a.usage.gate.reserved = 1 ∧
      ¬ (Sample.start.afterAll Sample.throttledTwice).Reserves Sample.key a := by
  have reached : (Sample.start.afterAll Sample.throttledTwice).Reached RepeatingOrder :=
    ⟨Config.default, {}, none, Sample.throttledTwice, by decide +kernel, rfl⟩
  have only : (Sample.start.afterAll Sample.throttledTwice).arrived = {7} := by decide +kernel
  have gone : (Sample.start.afterAll Sample.throttledTwice).live 7 = none := by decide +kernel
  have seen : ((Sample.start.afterAll Sample.throttledTwice).account Sample.key).map
      (fun a => (a.usage.gate.reserved, a.usage.gate.released.size)) = some (1, 0) := by
    decide +kernel
  have jobs : ((Sample.start.afterAll Sample.throttledTwice).boundJobs Sample.key
      (·.runReserved)).card = 0 := by decide +kernel
  obtain ⟨a, ha, hseen⟩ := Option.map_eq_some_iff.mp seen
  obtain ⟨reserved, released⟩ := Prod.mk.inj hseen
  refine ⟨reached, only, gone, a, ha, reserved, fun R => ?_⟩
  have total := R.total
  rw [reserved, released, jobs] at total
  cases total

end World

end JobAdmission

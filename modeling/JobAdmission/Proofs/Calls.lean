import JobAdmission.Proofs.Keeping
import JobAdmission.Proofs.Locality

/-!
# Calls, account by account

This module proves that an event of a run does at each account one of the few things that
can happen there, and that the scheduler accepts the requests which belong to it
(`World.Sound.does`). The proof goes by the topic of the call and rests on what each
step does to the ledger, to the scheduler and to what is kept for its job. Every world that
a run leads to is then sound at all its accounts (`World.Reached.sound`).
-/

namespace JobAdmission

/-! ### Answers -/

namespace Step

variable {H : Type} {α β : Type} {s : Step α H} {f : α → β}

theorem outcome_map_eq_ok {b : β} :
    (s.map f).outcome = .ok b ↔ ∃ a, s.outcome = .ok a ∧ f a = b := by
  rw [map]
  cases s.outcome <;> simp [Except.map]

theorem outcome_map_eq_error {err : HandlerError} :
    (s.map f).outcome = .error err ↔ s.outcome = .error err := by
  rw [map]
  cases s.outcome <;> simp [Except.map]

end Step

/-! ### Phases -/

namespace Phase

theorem next_priorityGet (p : Phase) (o : Except HandlerError Reply) :
    p.next .priorityGet o = p.next .priority o := by
  cases p <;> rcases o with _ | _ | _ <;> rfl

theorem next_updateQueue (p : Phase) (o : Except HandlerError Reply) :
    p.next .updateQueue o = p := by
  cases p <;> rfl

theorem next_queueUpdated (p : Phase) (o : Except HandlerError Reply) :
    p.next .queueUpdated o = p := by
  cases p <;> rfl

theorem next_priority_value (p : Phase) (value : Int64) :
    p.next .priority (.ok (.priority value)) = if p = .waiting then .ready else p := by
  cases p <;> rfl

theorem next_priority_waiting (o : Except HandlerError Reply) :
    next .waiting .priority o = .waiting ∨ next .waiting .priority o = .ready := by
  rcases o with _ | _ | _
  all_goals first | exact .inl rfl | exact .inr rfl

/-- Only the answer with the priority changes the phase. -/
theorem next_priority_of_ne {o : Except HandlerError Engine.PriorityOutcome}
    (ho : ∀ value, o ≠ .ok (.value value)) (p : Phase) :
    p.next .priority (o.map .ofPriority) = p := by
  rcases o with err | value | _
  · cases p <;> rfl
  · exact absurd rfl (ho value)
  · cases p <;> rfl

end Phase

namespace World

variable {H : Type} {w w' : World H} {j : JobId} {l : LiveJob} {x : Option LiveJob}
  {k k₀ : AccountKey} {b : JobBinding} {a a' : Account} {refusing : Bool}
  {r : HostRequest} {rs : List HostRequest}

/-! ### Requests at accounts -/

theorem requestsAt_nil (k₀ k : AccountKey) :
    w.requestsAt k [] = if k₀ = k then [] else [] := (ite_self _).symm

/-- A request about a job concerns the account that the job is bound to. -/
theorem requestsAt_singleton (hr : r.waiting? = some j) (hj : w.accountOf j = some k₀)
    (k : AccountKey) : w.requestsAt k [r] = if k₀ = k then [r] else [] := by
  simp only [requestsAt, List.filter_cons, hr, Option.any_some, hj, Option.some.injEq,
    decide_eq_true_eq, List.filter_nil]

/-- Requests that make no job wait concern no account. -/
theorem requestsAt_of_forall (h : ∀ r ∈ rs, r.waiting? = none) (k : AccountKey) :
    w.requestsAt k rs = [] := by
  refine List.filter_eq_nil_iff.mpr fun r hr => ?_
  simp [h r hr]

theorem requestsAt_append (rs rs' : List HostRequest) (k : AccountKey) :
    w.requestsAt k (rs ++ rs') = w.requestsAt k rs ++ w.requestsAt k rs' :=
  List.filter_append rs rs'

/-- Accepted patches make no job wait. -/
theorem waiting?_of_patches [Scheduler H] {h : H} {job : Job} {ps : List JobspecPatch} :
    ∀ r ∈ Scheduler.accepted h (Engine.patchRequests job ps), r.waiting? = none := by
  intro r hr
  have asked := (Scheduler.accepted_sublist h (Engine.patchRequests job ps)).subset hr
  obtain ⟨p, -, rfl⟩ := List.mem_map.mp asked
  rfl

/-- An account that sees a live job is the one that the job is bound to. -/
theorem accountOf_of_member {m : Member} (hm : (w.scene k).member j = some m) :
    w.accountOf j = some k := by
  obtain ⟨l, hl, hm⟩ := Option.bind_eq_some_iff.mp hm
  obtain ⟨b, hb, rfl, -⟩ := LiveJob.memberAt_eq_some.mp hm
  exact accountOf_of_binding hl hb

/-- At most one of the requests makes a job wait, or wait no longer. The job is bound to an
account, and waits no longer only if another one leaves. -/
structure Asks (w : World H) (leaves : Bool) (rs : List HostRequest) : Prop where
  homed : ∀ r ∈ rs, ∀ j ∈ r.waiting?, ∃ k, w.accountOf j = some k
  single : (rs.filterMap HostRequest.waiting?).length ≤ 1
  leaves : ∀ r ∈ rs, r.removed? ≠ none → leaves = true

theorem asks_of_forall {leaves : Bool} (h : ∀ r ∈ rs, r.waiting? = none) : w.Asks leaves rs where
  homed r hr j hj := by simp [h r hr] at hj
  single := by simp [List.filterMap_eq_nil_iff.mpr h]
  leaves r hr hremoved := by
    have nothing := h r hr
    cases r <;> simp_all [HostRequest.waiting?, HostRequest.removed?]

theorem asks_singleton {leaves : Bool} (hr : r.waiting? = some j) (hj : w.accountOf j = some k)
    (hleaves : r.removed? ≠ none → leaves = true) : w.Asks leaves [r] where
  homed r' hr' i hi := by
    obtain rfl := List.mem_singleton.mp hr'
    obtain rfl : j = i := by simpa [hr] using hi
    exact ⟨k, hj⟩
  single := List.length_filterMap_le _ [r]
  leaves r' hr' := by
    obtain rfl := List.mem_singleton.mp hr'
    exact hleaves

/-- Requests that make no job wait can follow. -/
theorem Asks.append {leaves : Bool} {rs' : List HostRequest} (h : w.Asks leaves rs)
    (h' : ∀ r ∈ rs', r.waiting? = none) : w.Asks leaves (rs ++ rs') := by
  have more : w.Asks leaves rs' := asks_of_forall h'
  refine ⟨fun r hr => ?_, ?_, fun r hr => ?_⟩
  · exact (List.mem_append.mp hr).elim (h.homed r) (more.homed r)
  · rw [List.filterMap_append, List.filterMap_eq_nil_iff.mpr h', List.append_nil]
    exact h.single
  · exact (List.mem_append.mp hr).elim (h.leaves r) (more.leaves r)

/-- The engine finds no account for a live job only if the job is bound to none. -/
theorem Sound.binding_of_boundAccount (hs : w.Sound) (hl : w.live j = some l)
    (hb : w.engine.boundAccount l.storage = none) : l.storage.binding = none := by
  by_contra hne
  obtain ⟨b, hb'⟩ := Option.ne_none_iff_exists'.mp hne
  obtain ⟨a, ha, -⟩ := (hs.scenes b.account.key).housed j _ (scene_member_of_binding hl hb')
  simp [hs.boundAccount hl hb' ha] at hb

/-- Where a job is bound to nothing and the ledger stays as it is, nothing happens. -/
theorem Sound.quiet_of_unbound (hs : w.Sound) (hl : w.live j = some l)
    (hb : w.engine.boundAccount l.storage = none) (hledger : w'.engine.ledger = w.engine.ledger)
    (hS : w'.arrived = w.arrived) (hw : w'.live = Function.update w.live j x)
    (hx : l.storage.binding = none → (x.bind fun l => l.memberAt k) = none) :
    Scene.Step k refusing [] [] (w.scene k) (w'.scene k) := by
  have unbound := hs.binding_of_boundAccount hl hb
  exact quiet_of_still hledger hS hw
    ((hx unbound).trans (scene_member_of_unbound hl unbound).symm)

theorem Sound.keyed (hs : w.Sound) : w.engine.ledger.Keyed := fun k a => (hs.scenes k).keyed a

/-- The account that is found for a job is real, and kept under its key. -/
theorem account_of_found {userid : UserId} {bank : Option String}
    (h : w.engine.ledger.lookup userid bank = .found a) :
    a.isPlaceholder = false ∧ w.account a.key = some a :=
  ⟨Ledger.isPlaceholder_of_found h, (Ledger.account?_of_lookup (.inl h)).1⟩

/-- A real account that is found for a job is kept under another key than a placeholder. -/
theorem ne_of_found (ha : w.account k = some a) (hp : a.isPlaceholder = true)
    {userid : UserId} {bank : Option String}
    (hf : w.engine.ledger.lookup userid bank = .found a') : k ≠ a'.key := by
  rintro rfl
  obtain ⟨real, ha'⟩ := account_of_found hf
  cases ha.symm.trans ha'
  simp [real] at hp

/-- A real account that is found for a job does not see it as long as it is bound to a
placeholder. -/
theorem absent_of_found (hl : w.live j = some l) (hb : l.storage.binding = some b)
    (ha : w.account b.account.key = some a) (hp : a.isPlaceholder = true) {userid : UserId}
    {bank : Option String} (hf : w.engine.ledger.lookup userid bank = .found a') :
    (w.scene a'.key).member j = none :=
  (scene_member_of_live hl).trans
    (LiveJob.memberAt_of_ne hb (ne_of_found ha hp hf))

/-! ### What each call does at an account -/

section Calls

variable {job : Job} {host : H} {ledger : Ledger} {s : JobStorage} {home : Handle}

theorem Sound.depend_step [Scheduler H] {outcome : Except HandlerError Engine.DependOutcome}
    (hs : w.Sound) (hl : w.live job.id = some l) (hp : l.phase = .fresh)
    (h : Engine.DependEffect w.engine job l.storage outcome rs host ledger s)
    (hledger : w'.engine.ledger = ledger) (hS : w'.arrived = w.arrived)
    (hw : w'.live = Function.update w.live job.id
      (some { l with phase := l.phase.next .depend (outcome.map .ofDepend), storage := s }))
    (k : AccountKey) : Scene.Step k false [] (w'.requestsAt k rs) (w.scene k) (w'.scene k) := by
  obtain ⟨userid, bank, p, s₀⟩ := l
  subst hp
  have after := congrFun hw job.id
  rw [Function.update_self] at after
  cases h with
  | unbound hb =>
    exact hs.quiet_of_unbound hl hb hledger hS hw (LiveJob.memberAt_of_unbound ·)
  | waved hb hp => exact hs.step_of_still hl hb hledger hS hw (.wave hp) (seenOnly_of_binding rfl) k
  | admitted hb hp hg =>
    exact hs.step_of_put hl hb hledger hS hw (requestsAt_nil _) (.proceed hp hg)
      (seenOnly_of_binding rfl) k
  | held hb hp hg =>
    have hb' := (Engine.boundAccount_eq_some.mp hb).1
    have asked := requestsAt_singleton (r := .addDependency job.id heldLabel) rfl
      (accountOf_of_binding after hb')
    exact hs.step_of_put hl hb hledger hS hw asked (.hold hp hg)
      (seenOnly_of_marked hb' (by simp [JobStorage.hasDependency])) k
  | @refused b a _ _ _ hb hp hg =>
    obtain ⟨hb', ha⟩ := hs.bound hl hb
    have member := scene_member_of_binding hl hb'
    have early := (((hs.scenes _).books a ha).fits job.id _ member).early (.inl rfl)
    rw [Account.unhold_of_enterGate early.2.1 early.2.2 hg] at hledger
    exact hs.step_of_put hl hb hledger hS hw (requestsAt_nil _) (.refuse hp)
      (seenOnly_of_binding hb') k

theorem depend_asks [Scheduler H] {outcome : Except HandlerError Engine.DependOutcome}
    (h : Engine.DependEffect w.engine job l.storage outcome rs host ledger s)
    (hw : w'.storage job.id = s) : w'.Asks false rs := by
  cases h with
  | unbound | waved | admitted | refused => exact asks_of_forall (by simp)
  | @held b _ _ _ hb =>
    refine asks_singleton (k := b.account.key) rfl ?_ (absurd rfl)
    rw [accountOf, hw]
    simp [(Engine.boundAccount_eq_some.mp hb).1]

theorem Sound.run_step {outcome : Except HandlerError Reply} (hs : w.Sound)
    (hl : w.live job.id = some l) (hp : l.phase = .ready) (hh : w.holds job.id = false)
    (h : Engine.RunEffect w.engine job l.storage ledger s)
    (hledger : w'.engine.ledger = ledger) (hS : w'.arrived = w.arrived)
    (hw : w'.live = Function.update w.live job.id
      (some { l with phase := l.phase.next .run outcome, storage := s }))
    (k : AccountKey) : Scene.Step k false [] [] (w.scene k) (w'.scene k) := by
  obtain ⟨userid, bank, p, s₀⟩ := l
  subst hp
  cases h with
  | unbound hb =>
    exact hs.quiet_of_unbound hl hb hledger hS hw (LiveJob.memberAt_of_unbound ·)
  | @started b a hb =>
    obtain ⟨hb', ha⟩ := hs.bound hl hb
    have member := scene_member_of_binding hl hb'
    have real : a.isPlaceholder = false := by
      by_contra hp
      rw [Bool.not_eq_false] at hp
      rcases ((hs.scenes _).plain a ha hp _ _ member).1.phase with hp | hp <;> cases hp
    have held : job.id ∉ a.usage.gate.held := by
      rw [holds, storage_of_live hl, hb] at hh
      simpa [Gate.isHeld] using hh
    exact hs.step_of_put hl hb hledger hS hw (requestsAt_nil (w := w') _) (.start real held)
      (seenOnly_of_marked rfl
        (by simp [JobStorage.hasDependency, JobStorage.removeDependency])) k

/-- The job that is to be released after another one left was not released before, and is
bound to the account that the other one left. -/
theorem Sound.next_of_leave {a₁ : Account} {next : JobId} {ran : Bool} (hs : w.Sound)
    (hl : w.live job.id = some l) (hb : w.engine.boundAccount l.storage = some (b, a))
    (hleave : a.leave job.id b ran = (true, a₁)) (hr : a₁.releaseNext = (some next, a'))
    (hw : w'.live = Function.update w.live job.id none) :
    next ∉ a₁.usage.gate.released ∧ w'.accountOf next = some b.account.key := by
  obtain ⟨-, ha⟩ := hs.bound hl hb
  have books := ((hs.scenes _).books a ha).leave hleave
  obtain ⟨rest, hh, -, -⟩ := Account.releaseNext_some hr
  have hmem : next ∈ a₁.usage.gate.held := by simp [hh]
  obtain ⟨m, hm⟩ := books.held next hmem
  refine ⟨((books.fits next m hm).held hmem).2, accountOf_of_member (m := m) ?_⟩
  rw [scene_member_update hw]
  exact hm

theorem Sound.inactive_step [Scheduler H] {outcome : Except HandlerError Unit} (hs : w.Sound)
    (hl : w.live job.id = some l) (halloc : job.allocObserved = true ↔ l.phase = .running)
    (h : Engine.InactiveEffect w.engine job l.storage outcome rs host ledger s)
    (hrefusing : ∀ err, outcome = .error (.fault (.dependencyRemove err)) → refusing = true)
    (hledger : w'.engine.ledger = ledger) (hS : w'.arrived = w.arrived)
    (hw : w'.live = Function.update w.live job.id none)
    (k : AccountKey) :
    Scene.Step k refusing [] (w'.requestsAt k rs) (w.scene k) (w'.scene k) := by
  have ran : job.allocObserved = decide (l.phase = .running) := by
    rw [Bool.eq_iff_iff, halloc, decide_eq_true_iff]
  cases h with
  | unbound hb =>
    exact hs.quiet_of_unbound hl hb hledger hS hw fun _ => rfl
  | left hb hleave =>
    rw [ran] at hleave
    exact hs.step_of_put hl hb hledger hS hw (requestsAt_nil _) (.leave hleave) (seenOnly_gone _) k
  | freed hb hleave hr =>
    rw [ran] at hleave
    exact hs.step_of_put hl hb hledger hS hw (requestsAt_nil _) (.free hleave hr)
      (seenOnly_gone _) k
  | released hb hleave hr =>
    have asked := requestsAt_singleton (r := .removeDependency _ heldLabel) rfl
      (hs.next_of_leave hl hb hleave hr hw).2
    rw [ran] at hleave
    exact hs.step_of_put hl hb hledger hS hw asked (.release hleave hr) (seenOnly_gone _) k
  | @kept _ _ _ _ _ err _ hb hleave hr =>
    have next_notMem := (hs.next_of_leave hl hb hleave hr hw).1
    rw [Account.unrelease_of_releaseNext next_notMem hr] at hledger
    rw [ran] at hleave
    exact hs.step_of_put hl hb hledger hS hw (requestsAt_nil _)
      (.keep (hrefusing err rfl) hleave hr) (seenOnly_gone _) k

theorem Sound.inactive_asks [Scheduler H] {outcome : Except HandlerError Unit} (hs : w.Sound)
    (hl : w.live job.id = some l)
    (h : Engine.InactiveEffect w.engine job l.storage outcome rs host ledger s)
    (hw : w'.live = Function.update w.live job.id none) : w'.Asks true rs := by
  cases h with
  | unbound | left | freed | kept => exact asks_of_forall (by simp)
  | released hb hleave hr =>
    exact asks_singleton rfl (hs.next_of_leave hl hb hleave hr hw).2 fun _ => rfl

theorem Sound.queueUpdated_step (hs : w.Sound) (hl : w.live job.id = some l)
    (h : Engine.QueueUpdatedEffect w.engine l.storage ledger s)
    (hledger : w'.engine.ledger = ledger) (hS : w'.arrived = w.arrived)
    (hw : w'.live = Function.update w.live job.id (some { l with storage := s }))
    (k : AccountKey) : Scene.Step k false [] [] (w.scene k) (w'.scene k) := by
  cases h with
  | ignored =>
    refine quiet_of_still hledger hS hw ?_
    rw [scene_member_of_live hl]
    rfl
  | settled hb hp =>
    exact hs.step_of_put hl hb hledger hS hw (requestsAt_nil (w := w') _) (.settle hp)
      (seenOnly_of_binding rfl) k

/-- A job that moves from a placeholder to its real account leaves the one and comes to
the other, and nothing happens elsewhere. -/
theorem Sound.rebind_step {real : Account} {decision : Gate.Decision} {factor : Int64} {p : Phase}
    (hs : w.Sound) (hl : w.live job.id = some l)
    (hb : w.engine.boundAccount l.storage = some (b, a)) (hp : a.isPlaceholder = true)
    (hf : w.engine.ledger.lookup job.userid job.bank = .found real)
    (hg : real.enterGate job.id = (decision, a')) (hl' : l.phase = .waiting)
    (hp' : p = .waiting ∨ p = .ready)
    (hledger : w'.engine.ledger = w.engine.ledger.put (a'.countActive.withQueueFactor factor))
    (hS : w'.arrived = w.arrived)
    (hw : w'.live = Function.update w.live job.id (some { l with
      phase := p
      storage := Engine.reboundStorage l.storage
        (Engine.rebound b (a'.countActive.withQueueFactor factor) factor decision) decision }))
    (k : AccountKey) :
    Scene.Step k refusing [] (w'.requestsAt k (Engine.holdRequests job decision)) (w.scene k)
      (w'.scene k) := by
  have hne := ne_of_found (hs.bound hl hb).2 hp hf
  obtain ⟨hb, ha⟩ := hs.bound hl hb
  obtain ⟨hreal, hfound⟩ := account_of_found hf
  have member := scene_member_of_binding hl hb
  obtain ⟨plain, notHeld, notReleased⟩ := (hs.scenes b.account.key).plain a ha hp _ _ member
  -- the placeholder held the job never
  have unmarked : l.storage.hasDependency heldLabel = false :=
    (((hs.scenes b.account.key).books a ha).fits _ _ member).unmarked notHeld notReleased
  have handle : (a'.countActive.withQueueFactor factor).handle = real.handle := by
    obtain ⟨gate, rfl⟩ := Account.eq_withGate_of_enterGate hg
    rfl
  have account : ∀ k, w'.account k =
      if real.key = k then some (a'.countActive.withQueueFactor factor) else w.account k := by
    intro k
    rw [World.account, hledger, Ledger.account?_put_of_kept hfound handle]
    rfl
  obtain ⟨userid, bank, _, s₀⟩ := l
  subst hl'
  have hm := hl ▸ seenOnly_of_binding hb
  have hj : job.id ∈ w'.arrived := hS ▸ hs.known job.id _ hl
  have moved := congrFun hw job.id
  rw [Function.update_self] at moved
  cases decision with
  | proceed r =>
    refine step_of_rebind hne hm ?_ ha hfound account hS.ge hj hw (.depart hp)
      (requestsAt_nil _) (.moveIn hreal hg hp') k
    have binding : Engine.rebound b (a'.countActive.withQueueFactor factor) factor (.proceed r) =
        { account := real.handle, queueFactor := factor, countedActive := true,
          runReserved := r } := by
      have running : b.countedRunning = false := plain.slotless.2
      simp [Engine.rebound, handle, running]
    rw [binding]
    exact seenOnly_of_marked rfl unmarked
  | hold =>
    have asked := requestsAt_singleton (r := .addDependency job.id heldLabel) rfl
      (accountOf_of_binding moved rfl)
    simp only [Engine.rebound, handle] at asked
    refine step_of_rebind hne hm ?_ ha hfound account hS.ge hj hw (.depart hp) asked
      (.moveInHeld hreal hg hp') k
    have binding : Engine.rebound b (a'.countActive.withQueueFactor factor) factor .hold =
        { account := real.handle, queueFactor := factor, countedActive := true } := by
      have reserved : b.runReserved = false := plain.slotless.1
      have running : b.countedRunning = false := plain.slotless.2
      simp [Engine.rebound, handle, reserved, running]
    rw [binding]
    exact seenOnly_of_marked rfl (by simp [JobStorage.hasDependency, Engine.reboundStorage])

theorem Sound.priority_step [Scheduler H] {outcome : Except HandlerError Engine.PriorityOutcome}
    (hs : w.Sound) (hl : w.live job.id = some l) (hp : l.phase ≠ .fresh)
    (h : Engine.PriorityEffect w.engine job l.storage outcome rs host ledger s)
    (hledger : w'.engine.ledger = ledger) (hS : w'.arrived = w.arrived)
    (hw : w'.live = Function.update w.live job.id
      (some { l with phase := l.phase.next .priority (outcome.map .ofPriority), storage := s }))
    (k : AccountKey) :
    Scene.Step k refusing [] (w'.requestsAt k rs) (w.scene k) (w'.scene k) := by
  have member : ∀ {b : JobBinding} {a : Account}, w.engine.boundAccount l.storage = some (b, a) →
      w.account b.account.key = some a ∧ (w.scene b.account.key).member job.id =
        some ⟨l.phase, b, l.storage.hasDependency heldLabel⟩ := by
    intro b a hb
    obtain ⟨hb, ha⟩ := hs.bound hl hb
    exact ⟨ha, scene_member_of_binding hl hb⟩
  cases h with
  | unbound hb =>
    exact hs.quiet_of_unbound hl hb hledger hS hw (LiveJob.memberAt_of_unbound ·)
  | @prioritized b a hb hreal =>
    have hb' := (Engine.boundAccount_eq_some.mp hb).1
    have next := Phase.next_priority_value l.phase
      (Int64.ofInt (Priority.compute a.terms.fairshare b.queueFactor job.urgency))
    refine hs.step_of_still hl hb hledger hS hw (.prioritize hreal) ?_ k
    rw [← next]
    exact seenOnly_of_binding hb'
  | stayed hb hpl why =>
    refine quiet_of_still hledger hS hw ?_
    rw [scene_member_of_live hl, Phase.next_priority_of_ne why.ne_value]
    rfl
  | @refused b a real a' err _ hb hpl hf hg =>
    obtain ⟨-, hfound⟩ := account_of_found hf
    -- the job is bound to the placeholder, so it is not at the gate of the real account
    have absent := absent_of_found hl (hs.bound hl hb).1 (hs.bound hl hb).2 hpl hf
    have outside := ((hs.scenes real.key).books real hfound).outside_of_none absent
    rw [Account.unhold_of_enterGate outside.held outside.released hg] at hledger
    refine quiet_step ?_ hS.ge hw ?_
    · rw [World.account, hledger, Ledger.account?_put_of_kept hfound rfl]
      split
      · rename_i hk
        rw [← hk, hfound]
      · rfl
    · rw [scene_member_of_live hl, Phase.next_priority_of_ne (by simp)]
      rfl
  | rebound hb hpl hf hg =>
    obtain ⟨ha, hm⟩ := member hb
    have waiting : l.phase = .waiting :=
      (((hs.scenes _).plain _ ha hpl _ _ hm).1.phase).resolve_left hp
    rw [requestsAt_append, requestsAt_of_forall waiting?_of_patches, List.append_nil]
    refine hs.rebind_step hl hb hpl hf hg waiting ?_ hledger hS hw k
    rw [waiting]
    exact Phase.next_priority_waiting _

theorem priority_asks [Scheduler H] {outcome : Except HandlerError Engine.PriorityOutcome}
    (h : Engine.PriorityEffect w.engine job l.storage outcome rs host ledger s)
    (hw : w'.storage job.id = s) : w'.Asks false rs := by
  cases h with
  | unbound | prioritized | stayed | refused => exact asks_of_forall (by simp)
  | @rebound _ _ _ a' decision =>
    refine Asks.append ?_ waiting?_of_patches
    cases decision with
    | proceed => exact asks_of_forall (by simp [Engine.holdRequests])
    | hold =>
      refine asks_singleton (k := a'.key) rfl ?_ (absurd rfl)
      rw [accountOf, hw]
      rfl

/-! ### Placeholders -/

/-- The ledger is that of the world, except that a placeholder can have been created in it. -/
def Founded (w : World H) (ledger : Ledger) : Prop :=
  ∀ k, ledger.account? k = w.account k ∨ ∃ userid fairshare, w.account k = none ∧
    ledger.account? k = some (.placeholder userid fairshare) ∧
    (Account.placeholder userid fairshare).key = k

theorem founded_same : w.Founded w.engine.ledger := fun _ => .inl rfl

theorem founded_ensurePlaceholder (userid : UserId) (fairshare : Binary64) :
    w.Founded (w.engine.ledger.ensurePlaceholder userid fairshare) := by
  intro k
  rw [Ledger.account?_ensurePlaceholder]
  split
  · rename_i h
    exact .inr ⟨userid, fairshare, h.2, rfl, h.1.symm⟩
  · exact .inl rfl

/-- Validation can create a placeholder. -/
theorem founded_validate (job : Job) (s : JobStorage) :
    w.Founded (w.engine.validate job s).engine.ledger := by
  rcases w.engine.validate_ledger job s with same | created
  · exact same ▸ founded_same
  · exact created ▸ founded_ensurePlaceholder _ _

/-- So can finding an account for a job that is bound to nothing. -/
theorem founded_startBinding (job : Job) (hs : s.binding = none) :
    w.Founded (w.engine.startBinding job s).2.2.ledger := by
  obtain ⟨_, -, same | created⟩ := w.engine.startBinding_unbound job hs
  · exact same ▸ founded_same
  · exact created ▸ founded_ensurePlaceholder _ _

/-- A real account was there before. -/
theorem Founded.account_of_real {ledger₀ : Ledger} (h₀ : w.Founded ledger₀)
    (ha : ledger₀.account? k = some a) (hp : a.isPlaceholder = false) : w.account k = some a := by
  rcases h₀ k with same | ⟨userid, fairshare, -, hcreated, -⟩
  · exact same.symm.trans ha
  · rw [hcreated] at ha
    cases ha
    cases hp

/-- Where at most a placeholder is created and the job's place stays as it is. -/
theorem founded_step {ledger₀ : Ledger} (h₀ : w.Founded ledger₀)
    (ha : w'.account k = ledger₀.account? k) (hS : w.arrived ⊆ w'.arrived)
    (hw : w'.live = Function.update w.live j x)
    (hm : (x.bind fun l => l.memberAt k) = (w.scene k).member j) :
    Scene.Step k refusing [] [] (w.scene k) (w'.scene k) := by
  rcases h₀ k with same | ⟨userid, fairshare, hnone, hcreated, key⟩
  · exact quiet_step (ha.trans same) hS hw hm
  · have scene : w'.scene k =
        ⟨some (.placeholder userid fairshare), w'.arrived, (w.scene k).member⟩ := by
      have member : (w'.scene k).member = (w.scene k).member := by
        rw [scene_member_update hw, hm, Function.update_eq_self]
      rw [← member, ← hcreated, ← ha]
      rfl
    rw [scene]
    exact .found hS hnone key

theorem new_asks [Scheduler H] {host₀ : H} {ledger₀ : Ledger} {outcome : Except HandlerError Unit}
    {byDefault : Bool} {s₀ : JobStorage}
    (h : Engine.NewJobEffect host₀ job ledger₀ b byDefault s₀ outcome rs host ledger s) :
    w'.Asks false rs := by
  cases h with
  | rejected | placed | detached => exact asks_of_forall (by simp)
  | enrolled => exact asks_of_forall waiting?_of_patches

theorem new_step [Scheduler H] {host₀ : H} {ledger₀ : Ledger}
    {outcome : Except HandlerError Unit} {byDefault : Bool}
    (hl : w.live job.id = none) (h₀ : w.Founded ledger₀)
    (kept : ledger₀.handle? home.key = some home)
    (h : Engine.NewJobEffect host₀ job ledger₀ { account := home } byDefault {} outcome rs host
      ledger s)
    (hledger : w'.engine.ledger = ledger) (hS : w'.arrived = insert job.id w.arrived)
    (hw : w'.live = Function.update w.live job.id (some ⟨job.userid, job.bank, .fresh, s⟩))
    (k : AccountKey) :
    Scene.Step k refusing [] (w'.requestsAt k rs) (w.scene k) (w'.scene k) := by
  have hsub : w.arrived ⊆ w'.arrived := hS ▸ Finset.subset_insert _ _
  have hj : job.id ∈ w'.arrived := hS ▸ Finset.mem_insert_self _ _
  have before : ∀ k, (w.scene k).member job.id = none := fun k => by simp [scene, hl]
  have ledger_account : ∀ k, w'.account k = ledger.account? k := fun k => by
    rw [World.account, hledger]
  cases h with
  | rejected | detached =>
    refine founded_step h₀ (ledger_account k) hsub hw ?_
    rw [before]
    exact LiveJob.memberAt_of_unbound rfl
  | @placed a ha hp =>
    have there : ledger.account? home.key = some a := (Ledger.account?_of_handle? kept).trans ha
    have handle := ledger.own home a ha
    have after : SeenOnly
        (some ⟨job.userid, job.bank, .fresh, { binding := some { account := home } }⟩)
        (some ⟨.fresh, { account := home }, false⟩) home.key := seenOnly_of_binding rfl
    by_cases hk : home.key = k
    · subst hk
      rcases h₀ home.key with same | ⟨userid, fairshare, hnone, hcreated, key⟩
      · refine move_step (same.symm.trans there) ((ledger_account home.key).trans there) hsub hj hw
          ((after home.key).trans (if_pos rfl)) ?_
        rw [before, ← handle]
        exact .sit hp
      · cases there.symm.trans hcreated
        have scene : w'.scene home.key = ⟨some (.placeholder userid fairshare), w'.arrived,
            Function.update (w.scene home.key).member job.id
              (some ⟨.fresh, { account := (Account.placeholder userid fairshare).handle },
                false⟩)⟩ := by
          have member := (after home.key).trans (if_pos rfl)
          rw [handle, ← member, ← scene_member_update hw, ← hcreated, ← ledger_account]
          rfl
        rw [scene]
        exact .foundFor hsub hj hnone key
    · refine founded_step h₀ (ledger_account k) hsub hw ?_
      rw [before]
      exact (after k).trans (if_neg hk)
  | @enrolled a factor _ _ _ ha hp room =>
    rw [requestsAt_of_forall waiting?_of_patches]
    have found : ledger₀.account? home.key = some a := (Ledger.account?_of_handle? kept).trans ha
    have handle := ledger₀.own home a ha
    have after : SeenOnly
        (some ⟨job.userid, job.bank, .fresh,
          { binding := some { account := home, countedActive := true, queueFactor := factor } }⟩)
        (some ⟨.fresh, { account := home, queueFactor := factor, countedActive := true }, false⟩)
        home.key := seenOnly_of_binding rfl
    have there : w.account home.key = some a := h₀.account_of_real found hp
    have account : ∀ k, w'.account k = if home.key = k
        then some (a.countActive.withQueueFactor factor) else ledger₀.account? k := by
      intro k
      rw [ledger_account]
      exact Ledger.account?_put_of_kept (b := a.countActive.withQueueFactor factor) found rfl k
    by_cases hk : home.key = k
    · subst hk
      refine move_step there ((account home.key).trans (if_pos rfl)) hsub hj hw
        ((after home.key).trans (if_pos rfl)) ?_
      rw [before, ← handle]
      exact .enroll hp (room rfl)
    · refine founded_step h₀ ((account k).trans (if_neg hk)) hsub hw ?_
      rw [before]
      exact (after k).trans (if_neg hk)

end Calls

/-! ### Events -/

section Events

variable [Scheduler H] {topic : Topic} {args : Json} {job : Job} {ev : Event H}

theorem live_after_call : (w.after (.call topic args job)).live job.id =
    w.liveAfter topic job (w.step topic args job) := Function.update_self ..

/-- Validation of a job announces nothing and changes nothing that is kept for a job. -/
theorem after_validate_live :
    (w.after (.call .validate args job)).live =
      Function.update w.live job.id (w.live job.id) := by
  simp [after, liveAfter]

theorem after_new_live (hl : w.live job.id = none) :
    (w.after (.call .new args job)).live = Function.update w.live job.id
      (some ⟨job.userid, job.bank, .fresh, (w.engine.newJob job {}).storage⟩) := by
  simp [after, liveAfter, hl, step, storage_of_not_live hl, Engine.stepOf, Step.map]

theorem after_inactive_live :
    (w.after (.call .inactive args job)).live = Function.update w.live job.id none := by
  simp [after, liveAfter]

/-- A call in the midst of a job's life changes its phase and what is kept for it. -/
theorem after_call_live (hl : w.live job.id = some l) (hvalidate : topic ≠ .validate)
    (hnew : topic ≠ .new) (hinactive : topic ≠ .inactive) :
    (w.after (.call topic args job)).live = Function.update w.live job.id
      (some { l with
        phase := l.phase.next topic (w.engine.stepOf topic args job l.storage).outcome
        storage := (w.engine.stepOf topic args job l.storage).storage }) := by
  cases topic <;> simp_all [after, liveAfter, step, storage_of_live hl]

theorem after_call_storage (hl : w.live job.id = some l) (hvalidate : topic ≠ .validate)
    (hnew : topic ≠ .new) (hinactive : topic ≠ .inactive) :
    (w.after (.call topic args job)).storage job.id =
      (w.engine.stepOf topic args job l.storage).storage := by
  simp [storage, after_call_live hl hvalidate hnew hinactive]

/-- A call on a job that does not leave keeps for it what the step keeps. -/
theorem storage_after_call (ht : topic ≠ .inactive)
    (hnew : topic = .new → w.live job.id = none) :
    (w.after (.call topic args job)).storage job.id = (w.step topic args job).storage := by
  cases hl : w.live job.id with
  | some l =>
    have notNew : topic ≠ .new := fun h => by simp [hnew h] at hl
    by_cases hv : topic = .validate
    · subst hv
      rw [storage, after_validate_live, Function.update_self, ← storage]
      exact (w.engine.validate_storage job _).symm
    · rw [after_call_storage hl hv notNew ht, step, storage_of_live hl]
  | none =>
    by_cases hn : topic = .new
    · subst hn
      rw [storage, after_new_live hl, Function.update_self, step, storage_of_not_live hl]
      rfl
    · have gone : (w.after (.call topic args job)).live job.id = none := by
        rw [live_after_call]
        cases topic with
        | new => exact absurd rfl hn
        | validate | depend | priority | priorityGet | run | inactive | updateQueue
          | queueUpdated => simp [liveAfter, hl]
      rw [storage_of_not_live gone, step, storage_of_not_live hl]
      exact (w.engine.stepOf_storage_of_unbound args job rfl hn).symm

theorem Sound.storage_after_call (hs : w.Sound) (h : w.HostOrder (.call topic args job))
    (ht : topic ≠ .inactive) :
    (w.after (.call topic args job)).storage job.id = (w.step topic args job).storage :=
  w.storage_after_call ht (by
    rintro rfl
    exact hs.not_live h)

theorem after_call_arrived (hnew : topic ≠ .new) :
    (w.after (.call topic args job)).arrived = w.arrived := by
  simp [after, hnew]

/-- A job that was announced stays so. -/
theorem arrived_subset_after : w.arrived ⊆ (w.after ev).arrived := by
  cases ev with
  | call topic args job =>
    by_cases hnew : topic = .new
    · simp [after, hnew]
    · rw [after_call_arrived hnew]
  | feed | reprioritize | scheduler => exact subset_rfl

theorem after_call_engine (hl : w.live job.id = some l) :
    (w.after (.call topic args job)).engine =
      (w.engine.stepOf topic args job l.storage).engine := by
  rw [after, step, storage_of_live hl]

theorem after_new_engine (args : Json) (hl : w.live job.id = none) :
    (w.after (.call .new args job)).engine = (w.engine.newJob job {}).engine := by
  rw [after, step, storage_of_not_live hl]
  rfl

theorem after_call_ledger (hl : w.live job.id = some l) :
    (w.after (.call topic args job)).engine.ledger =
      (w.engine.stepOf topic args job l.storage).engine.ledger :=
  congrArg Engine.ledger (after_call_engine hl)

theorem after_call_host (hl : w.live job.id = some l) :
    (w.after (.call topic args job)).engine.host =
      (w.engine.stepOf topic args job l.storage).engine.host :=
  congrArg Engine.host (after_call_engine hl)

/-- A job asks for its priority under two topics. -/
theorem after_priority (args : Json) (ht : topic = .priority ∨ topic = .priorityGet)
    (hl : w.live job.id = some l) :
    (w.after (.call topic args job)).storage job.id =
        (w.engine.priority job l.storage).storage ∧
      (w.after (.call topic args job)).engine.ledger =
        (w.engine.priority job l.storage).engine.ledger := by
  rcases ht with rfl | rfl
  · exact ⟨after_call_storage hl (by simp) (by simp) (by simp), after_call_ledger hl⟩
  · exact ⟨after_call_storage hl (by simp) (by simp) (by simp), after_call_ledger hl⟩

/-- The scheduler accepts these requests in an event. When it changes of its own, nothing
is asked of it. -/
def Accepts (w : World H) : Event H → List HostRequest → Prop
  | .scheduler _, rs => rs = []
  | ev, rs => Scheduler.Accepts w.engine.host rs (w.after ev).engine.host

theorem accepts_of_step (hl : w.live job.id = some l) (h : Scheduler.Accepts w.engine.host rs
    (w.engine.stepOf topic args job l.storage).engine.host) :
    w.Accepts (.call topic args job) rs := by
  rw [← after_call_host hl] at h
  exact h

/-- What an event does, together with the requests that the scheduler accepts in it: at each
account one of the few things that can happen there, with those requests that concern it. -/
structure Does (w : World H) (ev : Event H) (rs : List HostRequest) : Prop where
  accepts : w.Accepts ev rs
  asks : (w.after ev).Asks ev.leaving.isSome rs
  step : ∀ k, Scene.Step k (w.refuses ev) (ev.granted k) ((w.after ev).requestsAt k rs) (w.scene k)
    ((w.after ev).scene k)

theorem Sound.call_does (hs : w.Sound) (h : w.HostOrder (.call topic args job)) :
    ∃ rs, w.Does (.call topic args job) rs := by
  cases topic with
  | validate =>
    refine ⟨[], .of_eq (w.engine.validate_host job _), asks_of_forall (by simp), fun k => ?_⟩
    exact founded_step (founded_validate job _) rfl (after_call_arrived (by simp)).ge
      after_validate_live rfl
  | new =>
    have hl : w.live job.id = none := hs.not_live h
    have engine := after_new_engine args hl
    obtain ⟨home, binding, -⟩ := w.engine.startBinding_unbound job (s := {}) rfl
    have kept := w.engine.handle?_startBinding job (s := {}) rfl
    obtain ⟨rs, effect⟩ := w.engine.newJob_effect job {}
    rw [binding] at effect kept
    have accepts := effect.accepts
    rw [← engine] at accepts
    exact ⟨rs, accepts, new_asks effect, new_step hl (founded_startBinding job rfl) kept effect
      (congrArg _ engine) rfl (after_new_live hl)⟩
  | depend =>
    obtain ⟨l, hl, due⟩ := h
    have fresh : l.phase = .fresh := by simpa [Phase.admits] using due.phase
    obtain ⟨rs, effect⟩ := w.engine.depend_effect job l.storage
    exact ⟨rs, accepts_of_step hl effect.accepts,
      depend_asks effect (after_call_storage hl (by simp) (by simp) (by simp)),
      hs.depend_step hl fresh effect (after_call_ledger hl) (after_call_arrived (by simp))
        (after_call_live hl (by simp) (by simp) (by simp))⟩
  | priority =>
    obtain ⟨l, hl, due⟩ := h
    have passed : l.phase ≠ .fresh := by
      rintro hp
      simpa [Phase.admits, hp] using due.phase
    obtain ⟨rs, effect⟩ := w.engine.priority_effect job l.storage
    exact ⟨rs, accepts_of_step hl effect.accepts,
      priority_asks effect (after_call_storage hl (by simp) (by simp) (by simp)),
      hs.priority_step hl passed effect (after_call_ledger hl) (after_call_arrived (by simp))
        (after_call_live hl (by simp) (by simp) (by simp))⟩
  | priorityGet =>
    obtain ⟨l, hl, due⟩ := h
    have passed : l.phase ≠ .fresh := by
      rintro hp
      simpa [Phase.admits, hp] using due.phase
    have live : (w.after (.call .priorityGet args job)).live = _ :=
      after_call_live hl (by simp) (by simp) (by simp)
    rw [Phase.next_priorityGet] at live
    obtain ⟨rs, effect⟩ := w.engine.priority_effect job l.storage
    exact ⟨rs, accepts_of_step hl effect.accepts,
      priority_asks effect (after_call_storage hl (by simp) (by simp) (by simp)),
      hs.priority_step hl passed effect (after_call_ledger hl) (after_call_arrived (by simp)) live⟩
  | run =>
    obtain ⟨l, hl, due⟩ := h
    have ready : l.phase = .ready := by simpa [Phase.admits] using due.phase
    refine ⟨[], .of_eq ((after_call_host hl).trans (w.engine.run_host job l.storage)),
      asks_of_forall (by simp), fun k => ?_⟩
    exact hs.run_step hl ready (due.notHeld rfl) (w.engine.run_effect job l.storage)
      (after_call_ledger hl) (after_call_arrived (by simp))
      (after_call_live hl (by simp) (by simp) (by simp)) k
  | inactive =>
    obtain ⟨l, hl, due⟩ := h
    obtain ⟨rs, effect⟩ := w.engine.inactive_effect job l.storage
    refine ⟨rs, accepts_of_step hl effect.accepts,
      hs.inactive_asks hl effect after_inactive_live,
      hs.inactive_step hl (due.alloc rfl) effect ?_ (after_call_ledger hl)
        (after_call_arrived (by simp)) after_inactive_live⟩
    intro err herr
    have answer := Step.outcome_map_eq_error (f := fun _ => Reply.accepted).mpr herr
    simp [refuses, World.step, storage_of_live hl, Engine.stepOf, answer]
  | updateQueue =>
    obtain ⟨l, hl, -⟩ := h
    obtain ⟨hledger, hhost, hstorage⟩ :=
      w.engine.updateQueue_effect job l.storage (Engine.proposedQueue args)
    refine ⟨[], .of_eq ((after_call_host hl).trans hhost), asks_of_forall (by simp), fun k => ?_⟩
    refine quiet_of_still ((after_call_ledger hl).trans hledger) (after_call_arrived (by simp))
      (after_call_live hl (by simp) (by simp) (by simp)) ?_
    have storage : (w.engine.stepOf .updateQueue args job l.storage).storage = l.storage := hstorage
    rw [scene_member_of_live hl, Option.bind_some, Phase.next_updateQueue, storage]
  | queueUpdated =>
    obtain ⟨l, hl, -⟩ := h
    have live : (w.after (.call .queueUpdated args job)).live = _ :=
      after_call_live hl (by simp) (by simp) (by simp)
    rw [Phase.next_queueUpdated] at live
    refine ⟨[], .of_eq ((after_call_host hl).trans (w.engine.queueUpdated_host job l.storage)),
      asks_of_forall (by simp), fun k => ?_⟩
    exact hs.queueUpdated_step hl (w.engine.queueUpdated_effect job l.storage)
      (after_call_ledger hl) (after_call_arrived (by simp)) live k

/-- A demand for new priorities makes no job wait. -/
theorem accepts_reprioritize : ∃ rs, w.Accepts .reprioritize rs ∧
    ∀ r ∈ rs, r.waiting? = none := by
  rcases hr : Scheduler.request w.engine.host .reprioritizeAll with ⟨_ | err, host⟩
  · refine ⟨[.reprioritizeAll], .next hr (.of_eq ?_), by simp [HostRequest.waiting?]⟩
    simp [after, Engine.reprioritize, hr]
  · have refused : (w.after .reprioritize).engine.host = host := by
      simp [after, Engine.reprioritize, hr]
    refine ⟨[], ?_, by simp⟩
    rw [← refused] at hr
    exact .refused hr

/-- An event in the host's order does at each account one of the few things that can happen
there. -/
theorem Sound.does (hs : w.Sound) (h : w.HostOrder ev) : ∃ rs, w.Does ev rs := by
  cases ev with
  | feed kind rows =>
    refine ⟨[], .done, asks_of_forall (by simp), fun k => ?_⟩
    cases kind with
    | accounts =>
      have account : (w.after (.feed .accounts rows)).account k = _ :=
        w.engine.ledger.account?_updates (accepted AccountRecord.readUpdate rows) k
      have scene : (w.after (.feed .accounts rows)).scene k =
        ⟨(w.after (.feed .accounts rows)).account k, w.arrived, (w.scene k).member⟩ := rfl
      rw [scene, account]
      cases hg : (Event.granted k (.feed .accounts rows : Event H)).getLast? with
      | none =>
        rw [List.getLast?_eq_none_iff.mp hg]
        rw [Event.granted] at hg
        rw [hg]
        exact .quiet subset_rfl
      | some terms =>
        have last := hg
        rw [Event.granted] at last
        rw [last]
        exact .told hg
    | queues => exact .quiet subset_rfl
    | projects => exact .quiet subset_rfl
  | reprioritize =>
    obtain ⟨rs, accepts, nothing⟩ := accepts_reprioritize (w := w)
    refine ⟨rs, accepts, asks_of_forall nothing, fun k => ?_⟩
    rw [requestsAt_of_forall nothing]
    exact .quiet subset_rfl
  | scheduler host => exact ⟨[], rfl, asks_of_forall (by simp), fun k => .quiet subset_rfl⟩
  | call topic args job => exact hs.call_does h

/-- An event does at an account one of the few things that can happen there. -/
theorem Sound.scene_step (hs : w.Sound) (h : w.HostOrder ev) (k : AccountKey) :
    ∃ rs, Scene.Step k (w.refuses ev) (ev.granted k) rs (w.scene k) ((w.after ev).scene k) := by
  obtain ⟨rs, does⟩ := hs.does h
  exact ⟨_, does.step k⟩

/-- A job that is live after an event was announced. -/
theorem known_after (known : ∀ j l, w.live j = some l → j ∈ w.arrived) (j : JobId) (l : LiveJob)
    (hl : (w.after ev).live j = some l) : j ∈ (w.after ev).arrived := by
  cases ev with
  | feed kind rows => exact known j l hl
  | reprioritize => exact known j l hl
  | scheduler host => exact known j l hl
  | call topic args job =>
    by_cases hj : j = job.id
    · subst hj
      by_cases hnew : topic = .new
      · subst hnew
        exact Finset.mem_insert_self _ _
      · rw [after_call_arrived hnew]
        -- no other call makes a job live
        by_contra hunknown
        have hnone : w.live job.id = none := by
          cases hbefore : w.live job.id with
          | none => rfl
          | some l₀ => exact absurd (known job.id l₀ hbefore) hunknown
        cases topic <;> simp_all [after, liveAfter]
    · have before : w.live j = some l := by simpa [World.after, hj] using hl
      exact arrived_subset_after (known j l before)

/-- An event keeps the world sound. -/
theorem Sound.after (hs : w.Sound) (h : w.HostOrder ev) : (w.after ev).Sound where
  known := known_after hs.known
  scenes k := by
    obtain ⟨rs, step⟩ := hs.scene_step h k
    exact (hs.scenes k).step step

omit [Scheduler H] in
theorem start_sound (config : Config) (host : H) (audit : Option AuditTrail) :
    (start config host audit).Sound where
  known _ _ h := by cases h
  scenes k := by
    have none : ∀ a, ((start config host audit).scene k).account ≠ some a := by
      intro a ha
      cases (account_start config host audit k).symm.trans ha
    exact
      { keyed := fun a ha => absurd ha (none a)
        housed := fun _ _ h => nomatch h
        known := fun _ _ h => nomatch h
        books := fun a ha => absurd ha (none a)
        plain := fun a ha => absurd ha (none a) }

/-- A run keeps the world sound. -/
theorem Obeys.sound {es : List (Event H)} (h : w.Obeys HostOrder es) (hs : w.Sound) :
    (w.afterAll es).Sound := h.invariant (fun _ _ hs => hs.after) hs

/-- Every world that a run leads to is sound. -/
theorem Reached.sound (h : w.Reached HostOrder) : w.Sound :=
  h.invariant start_sound fun _ _ hs => hs.after

end Events

end World

end JobAdmission

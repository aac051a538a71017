import JobAdmission.Proofs.Leaving

/-!
# Accounts that differ in one held job

This module says what it means that two accounts, or two ledgers, are the same but for a job `x`
(`Account.SameBut`, `Ledger.SameBut`): the first one can have the job in its queue of held jobs and
counts it `n` times as active, and the second one does not know it. The queue factor of an account,
which is for information, may differ too.

What the engine does to both alike keeps them the same but for `x`. The gate decides by the slots
in use, to which a held job does not count, and an account that counts the job has no limit on
active jobs. Only if `x` itself were released next, the gates would part
(`Account.SameBut.releaseNext`).

Two schedulers, one of which was asked something of the job, are compared by a relation that they
keep as long as nothing is refused (`Scheduler.Apart`). The host which writes down what it is
asked for has one (`Host.apart`).
-/

namespace JobAdmission

/-! ### Schedulers -/

/-- The job that a request is about. -/
def HostRequest.job? : HostRequest → Option JobId
  | .updateJobspec job _ | .addDependency job _ | .removeDependency job _ => some job
  | .reprioritizeAll => none

/-- The relation compares schedulers that can differ in what they were asked of job `x`. What the
first one accepts of anything else, the second one accepts too, and it does not matter what the
first one accepts of the job. -/
structure Scheduler.Apart {H : Type} [Scheduler H] (x : JobId) (like : H → H → Prop) : Prop where
  refl : ∀ h, like h h
  others : ∀ {h h' host : H} {r : HostRequest}, like h h' → r.job? ≠ some x →
    request h r = (none, host) → ∃ host', request h' r = (none, host') ∧ like host host'
  own : ∀ {h h' host : H} {r : HostRequest}, like h h' → r.job? = some x →
    request h r = (none, host) → like host h'

namespace Scheduler.Apart

variable {H : Type} [Scheduler H] {x : JobId} {like : H → H → Prop} {h h' host : H}
  {rs : List HostRequest}

/-- What the first scheduler accepts of other jobs, the second one accepts. -/
theorem serve (apart : Apart x like) (hlike : like h h') (hrs : ∀ r ∈ rs, r.job? ≠ some x)
    (hserve : Scheduler.serve h rs = (none, host)) :
    ∃ host', Scheduler.serve h' rs = (none, host') ∧ like host host' := by
  induction rs generalizing h h' with
  | nil =>
    cases hserve
    exact ⟨h', rfl, hlike⟩
  | cons r rs ih =>
    rw [Scheduler.serve] at hserve
    split at hserve
    · cases hserve
    · rename_i h₁ hr
      obtain ⟨h₁', hr', hlike₁⟩ := apart.others hlike (hrs r List.mem_cons_self) hr
      obtain ⟨host', hserve', hlike'⟩ :=
        ih hlike₁ (fun r hr => hrs r (List.mem_cons_of_mem _ hr)) hserve
      refine ⟨host', ?_, hlike'⟩
      rw [Scheduler.serve, hr']
      exact hserve'

/-- What the first scheduler accepts of the job does not matter. -/
theorem serve_own (apart : Apart x like) (hlike : like h h') (hrs : ∀ r ∈ rs, r.job? = some x)
    (hserve : Scheduler.serve h rs = (none, host)) : like host h' := by
  induction rs generalizing h with
  | nil =>
    cases hserve
    exact hlike
  | cons r rs ih =>
    rw [Scheduler.serve] at hserve
    split at hserve
    · cases hserve
    · rename_i h₁ hr
      apply ih (apart.own hlike (hrs r List.mem_cons_self) hr) _ hserve
      exact fun r hr => hrs r (List.mem_cons_of_mem _ hr)

end Scheduler.Apart

namespace Host

/-- The hosts are the same but for what they were asked of the job. -/
structure LikeBut (x : JobId) (h h' : Host) : Prop where
  armed : h'.armed = h.armed
  dependencies : ∀ j label, j ≠ x → h'.hasDependency j label = h.hasDependency j label
  log : h'.log.filter (fun r => decide (r.job? ≠ some x)) =
    h.log.filter fun r => decide (r.job? ≠ some x)

/-- The host keeps apart what it is asked of different jobs. -/
theorem apart (x : JobId) : Scheduler.Apart x (LikeBut x) where
  refl _ := ⟨rfl, fun _ _ _ => rfl, rfl⟩
  others := by
    intro h h' host r like hr hreq
    have accepted : host = h.accept r := eq_accept_of_request hreq
    have armed : h.armed r.op = false ∧ h.objection r = none := by
      change h.request r = _ at hreq
      unfold request at hreq
      split at hreq
      · cases hreq
      · rename_i unarmed
        split at hreq
        · cases hreq
        · rename_i unobjected
          exact ⟨by simpa using unarmed, unobjected⟩
    have objection : h'.objection r = h.objection r := by
      cases r with
      | removeDependency j label =>
        have hj : j ≠ x := by
          rintro rfl
          exact hr rfl
        rw [Host.objection, Host.objection, like.dependencies j label hj]
      | updateJobspec | addDependency | reprioritizeAll => rfl
    refine ⟨h'.accept r, ?_, ?_⟩
    · show h'.request r = _
      rw [request, like.armed, armed.1, objection, armed.2]
      rfl
    · subst accepted
      refine ⟨like.armed, fun j label hj => ?_, ?_⟩
      · rw [Bool.eq_iff_iff, hasDependency_accept, hasDependency_accept,
          like.dependencies j label hj]
      · show (h'.log ++ [r]).filter _ = (h.log ++ [r]).filter _
        rw [List.filter_append, List.filter_append, like.log]
  own := by
    intro h h' host r like hr hreq
    obtain rfl : host = h.accept r := eq_accept_of_request hreq
    refine ⟨like.armed, fun j label hj => ?_, ?_⟩
    · rw [like.dependencies j label hj, Bool.eq_iff_iff, hasDependency_accept]
      constructor
      · intro hd
        refine .inl ⟨hd, ?_⟩
        rintro rfl
        exact hj (Option.some.inj hr)
      · rintro (⟨hd, -⟩ | rfl)
        · exact hd
        · exact absurd (Option.some.inj hr) hj
    · show h'.log.filter _ = (h.log ++ [r]).filter _
      rw [like.log, List.filter_append]
      simp [hr]

end Host

/-! ### Accounts -/

/-- The usages are the same, but that the second one does not have the job in its queue and counts
`n` active jobs less. -/
structure Usage.SameBut (x : JobId) (n : Counter) (u u' : Usage) : Prop where
  running : u'.running = u.running
  active : u.active = u'.active + n
  held : u'.gate.held = u.gate.held.filter fun i => decide (i ≠ x)
  released : u'.gate.released = u.gate.released
  reserved : u'.gate.reserved = u.gate.reserved

/-- The accounts are the same, but that the second one does not have the job in its queue and
counts `n` active jobs less. An account that counts the job has no limit on active jobs. -/
structure Account.SameBut (x : JobId) (n : Counter) (a a' : Account) : Prop where
  usedAs : a.UsedAs a'
  usage : a.usage.SameBut x n a'.usage
  unlimited : n ≠ 0 → a.terms.activeLimit = none

namespace Account

variable {x j : JobId} {n : Counter} {a a' : Account} {b : JobBinding} {ran : Bool}

/-- An account that does not hold the job is the same as itself. -/
theorem sameBut_self (h : x ∉ a.usage.gate.held) : a.SameBut x 0 a where
  usedAs := .refl a
  usage :=
    { running := rfl
      active := (UInt32.add_zero _).symm
      held := by
        refine (List.filter_eq_self.mpr fun i hi => ?_).symm
        simp only [decide_eq_true_eq]
        rintro rfl
        exact h hi
      released := rfl
      reserved := rfl }
  unlimited h := absurd rfl h

namespace SameBut

theorem handle (h : a.SameBut x n a') : a'.handle = a.handle := by
  obtain ⟨usage, rfl⟩ := h.usedAs
  rfl

theorem key (h : a.SameBut x n a') : a'.key = a.key := congrArg Handle.key h.handle

theorem terms (h : a.SameBut x n a') : a'.terms = a.terms := by
  obtain ⟨usage, rfl⟩ := h.usedAs
  rfl

theorem isPlaceholder (h : a.SameBut x n a') : a'.isPlaceholder = a.isPlaceholder := by
  obtain ⟨usage, rfl⟩ := h.usedAs
  rfl

theorem full (h : a.SameBut x n a') : a'.full = a.full := by
  apply full_congr h.terms
  rw [Usage.occupied, Usage.occupied, h.usage.running, h.usage.reserved]

theorem atActiveLimit (h : a.SameBut x n a') : a'.atActiveLimit = a.atActiveLimit := by
  rw [Account.atActiveLimit, Account.atActiveLimit, h.terms]
  by_cases hn : n = 0
  · have active := h.usage.active
    rw [hn, UInt32.add_zero] at active
    rw [active]
  · rw [h.unlimited hn]

theorem hasSlot (h : a.SameBut x n a') (j : JobId) (r : Bool) :
    a'.usage.gate.hasSlot j r = a.usage.gate.hasSlot j r := by
  rw [Gate.hasSlot, Gate.hasSlot, h.usage.released]

theorem frees (h : a.SameBut x n a') : a'.frees j b ran = a.frees j b ran := by
  rw [Account.frees, Account.frees, h.hasSlot]

/-- The gates change alike. -/
theorem withGate (h : a.SameBut x n a') {g g' : Gate}
    (held : g'.held = g.held.filter fun i => decide (i ≠ x)) (released : g'.released = g.released)
    (reserved : g'.reserved = g.reserved) : (a.withGate g).SameBut x n (a'.withGate g') where
  usedAs := by
    obtain ⟨usage, rfl⟩ := h.usedAs
    exact ⟨_, rfl⟩
  usage := ⟨h.usage.running, h.usage.active, held, released, reserved⟩
  unlimited := h.unlimited

/-- The gate decides on another job alike. -/
theorem enterGate (h : a.SameBut x n a') (hj : j ≠ x) :
    (a'.enterGate j).1 = (a.enterGate j).1 ∧
      (a.enterGate j).2.SameBut x n (a'.enterGate j).2 := by
  have full := h.full
  rw [Account.full, Account.full] at full
  have usage := h.usage
  unfold Account.enterGate Gate.enter
  rw [h.terms] at full ⊢
  cases hc : a.terms.runLimit.cap with
  | none => exact ⟨rfl, h.withGate usage.held usage.released usage.reserved⟩
  | some c =>
    rw [hc] at full
    by_cases hf : a.usage.gate.isFull a.usage.running (some c) = true
    · rw [if_pos hf, if_pos (full.trans hf)]
      refine ⟨rfl, h.withGate ?_ usage.released usage.reserved⟩
      simp [usage.held, hj]
    · rw [if_neg hf, if_neg (full ▸ hf)]
      exact ⟨rfl, h.withGate usage.held usage.released (congrArg Counter.up usage.reserved)⟩

theorem countActive (h : a.SameBut x n a') : a.countActive.SameBut x n a'.countActive where
  usedAs := by
    obtain ⟨usage, rfl⟩ := h.usedAs
    exact ⟨_, rfl⟩
  usage := by
    refine ⟨h.usage.running, ?_, h.usage.held, h.usage.released, h.usage.reserved⟩
    rw [Account.countActive, Account.countActive, h.usage.active]
    exact Counter.up_add n
  unlimited := h.unlimited

/-- The queue factor that an account keeps does not matter. -/
theorem withQueueFactor (h : a.SameBut x n a') (factor factor' : Int64) :
    (a.withQueueFactor factor).SameBut x n (a'.withQueueFactor factor') where
  usedAs := by
    obtain ⟨usage, rfl⟩ := h.usedAs
    exact ⟨_, rfl⟩
  usage := ⟨h.usage.running, h.usage.active, h.usage.held, h.usage.released, h.usage.reserved⟩
  unlimited := h.unlimited

theorem withQueueFactor_left (h : a.SameBut x n a') (factor : Int64) :
    (a.withQueueFactor factor).SameBut x n a' where
  usedAs := by
    obtain ⟨usage, rfl⟩ := h.usedAs
    exact ⟨_, rfl⟩
  usage := ⟨h.usage.running, h.usage.active, h.usage.held, h.usage.released, h.usage.reserved⟩
  unlimited := h.unlimited

/-- The job itself is counted as active, where there is no limit on active jobs. -/
theorem countActive_left (h : a.SameBut x 0 a') (unlimited : a.terms.activeLimit = none) :
    a.countActive.SameBut x 1 a' where
  usedAs := by
    obtain ⟨usage, rfl⟩ := h.usedAs
    exact ⟨_, rfl⟩
  usage :=
    { running := h.usage.running
      active := by
        rw [Account.countActive, h.usage.active, UInt32.add_zero]
        rfl
      held := h.usage.held
      released := h.usage.released
      reserved := h.usage.reserved }
  unlimited _ := unlimited

/-- The job itself comes to the end of the queue. -/
theorem hold_left (h : a.SameBut x n a') :
    (a.withGate { a.usage.gate with held := a.usage.gate.held ++ [x] }).SameBut x n a' where
  usedAs := by
    obtain ⟨usage, rfl⟩ := h.usedAs
    exact ⟨_, rfl⟩
  usage :=
    { running := h.usage.running
      active := h.usage.active
      held := by
        show a'.usage.gate.held = (a.usage.gate.held ++ [x]).filter _
        rw [List.filter_append, h.usage.held]
        simp
      released := h.usage.released
      reserved := h.usage.reserved }
  unlimited := h.unlimited

/-- The job itself leaves. It has no slot, and is counted as active no longer. -/
theorem left_left (h : a.SameBut x 1 a') (counted : b.countedActive = true)
    (pos : 0 < a.usage.active)
    (reserved : b.runReserved = false) (fresh : x ∉ a.usage.gate.released) :
    (a.left x b false).SameBut x 0 a' where
  usedAs := by
    obtain ⟨usage, rfl⟩ := h.usedAs
    exact ⟨_, rfl⟩
  usage :=
    { running := h.usage.running
      active := by
        rw [left_active, counted, if_pos rfl, Counter.down_of_pos pos, h.usage.active,
          UInt32.add_sub_cancel, UInt32.add_zero]
      held := by
        rw [left_held, h.usage.held, List.filter_filter]
        simp
      released := by
        rw [left_released, h.usage.released]
        apply Std.ExtTreeSet.ext_mem
        intro i
        rw [Gate.mem_erase]
        constructor
        · intro hi
          refine ⟨?_, hi⟩
          rintro rfl
          exact fresh hi
        · exact And.right
      reserved := by
        rw [left_reserved, Gate.hasSlot, reserved, Gate.contains_eq_false fresh]
        exact h.usage.reserved }
  unlimited h := absurd rfl h

theorem start (h : a.SameBut x n a') : (a.start j b).SameBut x n (a'.start j b) where
  usedAs := by
    obtain ⟨usage, rfl⟩ := h.usedAs
    exact ⟨_, rfl⟩
  usage :=
    { running := by rw [Account.start, Account.start, h.usage.running]
      active := h.usage.active
      held := h.usage.held
      released := congrArg (fun jobs => jobs.erase j) h.usage.released
      reserved := by
        show (if a'.usage.gate.hasSlot j b.runReserved then a'.usage.gate.reserved.down
            else a'.usage.gate.reserved) = _
        rw [h.hasSlot, h.usage.reserved]
        rfl }
  unlimited := h.unlimited

/-- Another job leaves. Where the job `x` is counted as active, both are, or `x` alone. -/
theorem left (h : a.SameBut x n a')
    (counted : n ≠ 0 → b.countedActive = true → n < a.usage.active) :
    (a.left j b ran).SameBut x n (a'.left j b ran) where
  usedAs := by
    obtain ⟨usage, rfl⟩ := h.usedAs
    exact ⟨_, rfl⟩
  usage :=
    { running := by rw [left_running, left_running, h.usage.running]
      active := by
        rw [left_active, left_active]
        cases hc : b.countedActive with
        | false => exact h.usage.active
        | true =>
          simp only [if_true]
          exact Counter.down_eq_down_add h.usage.active fun hn => counted hn hc
      held := by
        rw [left_held, left_held, h.usage.held]
        apply List.filter_comm
      released := by rw [left_released, left_released, h.usage.released]
      reserved := by rw [left_reserved, left_reserved, h.hasSlot, h.usage.reserved] }
  unlimited := h.unlimited

/-- The same job is released next, if it is not `x`. -/
theorem releaseNext (h : a.SameBut x n a') (spared : x ∉ a.releaseOne.usage.gate.released) :
    a'.releaseNext.1 = a.releaseNext.1 ∧ a.releaseOne.SameBut x n a'.releaseOne := by
  have usage := h.usage
  cases hf : a.full with
  | true =>
    have hf' := h.full.trans hf
    rw [releaseOne_of_full hf, releaseOne_of_full hf', releaseNext_of_full hf,
      releaseNext_of_full hf']
    exact ⟨rfl, h⟩
  | false =>
    have hf' := h.full.trans hf
    cases hh : a.usage.gate.held with
    | nil =>
      have hh' : a'.usage.gate.held = [] := by simp [usage.held, hh]
      rw [releaseOne_of_nil hh, releaseOne_of_nil hh', releaseNext_of_nil hh,
        releaseNext_of_nil hh']
      exact ⟨rfl, h⟩
    | cons i rest =>
      have hi : i ≠ x := by
        rintro rfl
        rw [releaseOne_of_cons hf hh] at spared
        exact spared (Gate.mem_insert.mpr (.inl rfl))
      have hh' : a'.usage.gate.held = i :: rest.filter fun i => decide (i ≠ x) := by
        simp [usage.held, hh, hi]
      rw [releaseOne_of_cons hf hh, releaseOne_of_cons hf' hh', releaseNext_of_cons hf hh,
        releaseNext_of_cons hf' hh']
      refine ⟨rfl, h.withGate rfl ?_ (congrArg Counter.up usage.reserved)⟩
      exact congrArg (fun jobs => jobs.insert i) usage.released

/-- The feed tells both accounts the same terms. -/
theorem refresh (h : a.SameBut x n a') (terms : Terms)
    (unlimited : n ≠ 0 → terms.activeLimit = none) :
    (a.refresh terms).SameBut x n (a'.refresh terms) where
  usedAs := by
    obtain ⟨usage, rfl⟩ := h.usedAs
    exact ⟨_, rfl⟩
  usage := h.usage
  unlimited := unlimited

/-- Nothing is left of a job that is neither held nor counted. -/
theorem eq_of_notMem (h : a.SameBut x 0 a') (notMem : x ∉ a.usage.gate.held) (factor : Int64) :
    a'.withQueueFactor factor = a.withQueueFactor factor := by
  have usedAs : a.UsedAs (a'.withQueueFactor factor) := by
    obtain ⟨usage, rfl⟩ := h.usedAs
    exact ⟨_, rfl⟩
  apply usedAs.eq_of_usage ⟨_, rfl⟩
  case running => exact h.usage.running
  case active =>
    show a'.usage.active = a.usage.active
    rw [h.usage.active, UInt32.add_zero]
  case held => exact h.usage.held.trans (sameBut_self notMem).usage.held.symm
  case released => exact h.usage.released
  case reserved => exact h.usage.reserved
  case queueFactor => rfl

end SameBut

end Account

/-! ### Ledgers -/

/-- The ledgers hold the same accounts, but that the second one does not have the job in a queue,
and counts as many active jobs less at each account as `extra` tells. -/
structure Ledger.SameBut (x : JobId) (extra : Handle → Counter) (l l' : Ledger) : Prop where
  there : ∀ (h : Handle) (a : Account), l.objects[h]? = some a →
    ∃ a', l'.objects[h]? = some a' ∧ a.SameBut x (extra h) a'
  absent : ∀ h : Handle, l.objects[h]? = none → l'.objects[h]? = none ∧ extra h = 0
  serials : l'.serials = l.serials
  defaultBanks : l'.defaultBanks = l.defaultBanks
  queues : l'.queues = l.queues
  projects : l'.projects = l.projects

/-- A ledger where the job is in no queue is the same as itself. -/
theorem Ledger.sameBut_self {x : JobId} {l : Ledger}
    (notHeld : ∀ (h : Handle) (a : Account), l.objects[h]? = some a → x ∉ a.usage.gate.held) :
    l.SameBut x (fun _ => 0) l where
  there h a ha := ⟨a, ha, Account.sameBut_self (notHeld h a ha)⟩
  absent _ hnone := ⟨hnone, rfl⟩
  serials := rfl
  defaultBanks := rfl
  queues := rfl
  projects := rfl

namespace Ledger.SameBut

variable {x : JobId} {extra : Handle → Counter} {l l' : Ledger} {a a' : Account}
  {k : AccountKey} {userid : UserId} {bank : Option String}

theorem handle? (h : l.SameBut x extra l') (k : AccountKey) : l'.handle? k = l.handle? k := by
  rw [Ledger.handle?, Ledger.handle?, h.serials]

/-- The accounts of a key are the same but for the job. -/
theorem account? (h : l.SameBut x extra l') (ha : l.account? k = some a) :
    ∃ a', l'.account? k = some a' ∧ a.SameBut x (extra a.handle) a' := by
  obtain ⟨a', ha', same⟩ := h.there _ a (object_of_account? ha)
  refine ⟨a', ?_, same⟩
  rw [account?_of_handle? ((h.handle? k).trans (handle?_of_account? ha)), ha']

theorem account?_eq_none (h : l.SameBut x extra l') :
    l'.account? k = none ↔ l.account? k = none := by
  rw [← handle?_eq_none, h.handle?, handle?_eq_none]

/-- Accounts that are the same but for the job are kept. -/
theorem put (h : l.SameBut x extra l') (same : a.SameBut x (extra a.handle) a') :
    (l.put a).SameBut x extra (l'.put a') where
  there h₀ a₀ ha₀ := by
    rw [getElem?_objects_put] at ha₀
    rw [getElem?_objects_put, same.handle]
    by_cases hk : a.handle = h₀
    · rw [if_pos hk] at ha₀ ⊢
      obtain ⟨before, hbefore, rfl⟩ := Option.map_eq_some_iff.mp ha₀
      obtain ⟨before', hbefore', -⟩ := h.there h₀ before hbefore
      rw [hbefore', ← hk]
      exact ⟨a', rfl, same⟩
    · rw [if_neg hk] at ha₀ ⊢
      exact h.there h₀ a₀ ha₀
  absent h₀ hnone := by
    rw [getElem?_objects_put_eq_none] at hnone ⊢
    exact h.absent h₀ hnone
  serials := h.serials
  defaultBanks := h.defaultBanks
  queues := h.queues
  projects := h.projects

/-- The first ledger keeps another account, while nothing happens in the second one. -/
theorem put_left {extra' : Handle → Counter} (h : l.SameBut x extra l')
    (ha' : l'.objects[a.handle]? = some a') (same : a.SameBut x (extra' a.handle) a')
    (others : ∀ h, h ≠ a.handle → extra' h = extra h) : (l.put a).SameBut x extra' l' where
  there h₀ a₀ ha₀ := by
    rw [getElem?_objects_put] at ha₀
    by_cases hk : a.handle = h₀
    · rw [if_pos hk] at ha₀
      obtain ⟨-, -, rfl⟩ := Option.map_eq_some_iff.mp ha₀
      exact hk ▸ ⟨a', ha', same⟩
    · rw [if_neg hk] at ha₀
      rw [others h₀ (Ne.symm hk)]
      exact h.there h₀ a₀ ha₀
  absent h₀ hnone := by
    obtain ⟨hnone', zero⟩ := h.absent h₀ (getElem?_objects_put_eq_none.mp hnone)
    have other : h₀ ≠ a.handle := by
      rintro rfl
      cases hnone'.symm.trans ha'
    exact ⟨hnone', (others h₀ other).trans zero⟩
  serials := h.serials
  defaultBanks := h.defaultBanks
  queues := h.queues
  projects := h.projects

/-- An account without held jobs is created in both ledgers. -/
theorem create (h : l.SameBut x extra l') (idle : a.usage.gate.held = []) :
    (l.create a).SameBut x extra (l'.create a) where
  there h₀ a₀ ha₀ := by
    have fresh : l'.fresh a.key = l.fresh a.key := by rw [fresh, fresh, h.serials]
    rw [getElem?_objects_create] at ha₀
    rw [getElem?_objects_create, fresh]
    by_cases hk : l.fresh a.key = h₀
    · rw [if_pos hk] at ha₀ ⊢
      cases ha₀
      obtain ⟨-, zero⟩ := h.absent h₀ (Std.ExtTreeMap.getElem?_eq_none (hk ▸ l.fresh_not_mem a.key))
      rw [zero]
      exact ⟨_, rfl, Account.sameBut_self (by simp [idle])⟩
    · rw [if_neg hk] at ha₀ ⊢
      exact h.there h₀ a₀ ha₀
  absent h₀ hnone := by
    have fresh : l'.fresh a.key = l.fresh a.key := by rw [fresh, fresh, h.serials]
    rw [getElem?_objects_create] at hnone
    rw [getElem?_objects_create, fresh]
    by_cases hk : l.fresh a.key = h₀
    · rw [if_pos hk] at hnone
      cases hnone
    · rw [if_neg hk] at hnone ⊢
      exact h.absent h₀ hnone
  serials := by
    show l'.serials.insert a.key (l'.fresh a.key).serial =
      l.serials.insert a.key (l.fresh a.key).serial
    rw [fresh, fresh, h.serials]
  defaultBanks := h.defaultBanks
  queues := h.queues
  projects := h.projects

/-- A placeholder is created in both ledgers, or in none. -/
theorem ensurePlaceholder (h : l.SameBut x extra l') (userid : UserId) (fairshare : Binary64) :
    (l.ensurePlaceholder userid fairshare).SameBut x extra
      (l'.ensurePlaceholder userid fairshare) := by
  have banks : ∀ {kept kept' : Ledger}, kept.SameBut x extra kept' →
      SameBut x extra
        { kept with
          defaultBanks := l.defaultBanks.insertIfNew userid Account.placeholderBank }
        { kept' with
          defaultBanks := l'.defaultBanks.insertIfNew userid Account.placeholderBank } := by
    intro kept kept' same
    exact ⟨same.there, same.absent, same.serials, by simp only [h.defaultBanks], same.queues,
      same.projects⟩
  unfold Ledger.ensurePlaceholder
  cases ha : l.account? ⟨userid, Account.placeholderBank⟩ with
  | none =>
    rw [h.account?_eq_none.mpr ha]
    exact banks (h.create rfl)
  | some a =>
    obtain ⟨a', ha', -⟩ := h.account? ha
    rw [ha']
    exact banks h

/-- The feed tells both ledgers of an account. An account that counts the job is given no limit. -/
theorem update (h : l.SameBut x extra l') (u : AccountUpdate)
    (unlimited : ∀ h : Handle, h.key = u.key → extra h ≠ 0 → u.terms.activeLimit = none) :
    (l.update u).SameBut x extra (l'.update u) := by
  have banks : ∀ {told told' : Ledger}, told.SameBut x extra told' →
      SameBut x extra
        { told with defaultBanks := l.defaultBanks.insert u.key.userid u.defaultBank }
        { told' with defaultBanks := l'.defaultBanks.insert u.key.userid u.defaultBank } := by
    intro told told' same
    exact ⟨same.there, same.absent, same.serials, by simp only [h.defaultBanks], same.queues,
      same.projects⟩
  unfold Ledger.update
  cases ha : l.account? u.key with
  | none =>
    rw [h.account?_eq_none.mpr ha]
    exact banks (h.create rfl)
  | some a =>
    obtain ⟨a', ha', same⟩ := h.account? ha
    rw [ha']
    have told : (a.refresh u.terms).SameBut x (extra (a.refresh u.terms).handle)
        (a'.refresh u.terms) := same.refresh u.terms (unlimited a.handle (key_of_account? ha))
    exact banks (h.put told)

theorem updates (h : l.SameBut x extra l') (us : List AccountUpdate)
    (unlimited : ∀ u ∈ us, ∀ h : Handle, h.key = u.key → extra h ≠ 0 →
      u.terms.activeLimit = none) :
    (us.foldl Ledger.update l).SameBut x extra (us.foldl Ledger.update l') := by
  induction us generalizing l l' with
  | nil => exact h
  | cons u us ih =>
    apply ih (h.update u (unlimited u (by simp)))
    exact fun u hu => unlimited u (List.mem_cons_of_mem _ hu)

/-- The same is found for a job. -/
theorem lookup (h : l.SameBut x extra l') (userid : UserId) (bank : Option String) :
    (∃ a a', l.lookup userid bank = .found a ∧ l'.lookup userid bank = .found a' ∧
      a.SameBut x (extra a.handle) a') ∨
    (∃ a a', l.lookup userid bank = .placeholder a ∧ l'.lookup userid bank = .placeholder a' ∧
      a.SameBut x (extra a.handle) a') ∨
    l.lookup userid bank = .notFound ∧ l'.lookup userid bank = .notFound := by
  have bankFor : l'.bankFor userid bank = l.bankFor userid bank := by
    rw [Ledger.bankFor, Ledger.bankFor, h.defaultBanks]
  cases hb : l.bankFor userid bank with
  | none =>
    refine .inr (.inr ⟨?_, ?_⟩)
    · rw [Ledger.lookup, hb]
      rfl
    · rw [Ledger.lookup, bankFor, hb]
      rfl
  | some name =>
    cases ha : l.account? ⟨userid, name⟩ with
    | none =>
      refine .inr (.inr ⟨?_, ?_⟩)
      · simp [Ledger.lookup, hb, ha]
      · simp [Ledger.lookup, bankFor, hb, h.account?_eq_none.mpr ha]
    | some a =>
      obtain ⟨a', ha', same⟩ := h.account? ha
      rw [lookup_of_some hb ha, lookup_of_some (bankFor.trans hb) ha', same.isPlaceholder]
      cases a.isPlaceholder with
      | true => exact .inr (.inl ⟨a, a', rfl, rfl, same⟩)
      | false => exact .inl ⟨a, a', rfl, rfl, same⟩

theorem placeholderHandle (h : l.SameBut x extra l') (userid : UserId) :
    l'.placeholderHandle userid = l.placeholderHandle userid := by
  rw [Ledger.placeholderHandle, Ledger.placeholderHandle, h.handle?, fresh, fresh, h.serials]

theorem onlyPlaceholders (h : l.SameBut x extra l') :
    l'.onlyPlaceholders = l.onlyPlaceholders := by
  rw [Bool.eq_iff_iff, onlyPlaceholders_iff, onlyPlaceholders_iff]
  constructor
  · intro only k a ha
    obtain ⟨a', ha', same⟩ := h.account? ha
    rw [← same.isPlaceholder]
    exact only k a' ha'
  · intro only k a' ha'
    cases ha : l.account? k with
    | none => cases ha'.symm.trans (h.account?_eq_none.mpr ha)
    | some a =>
      obtain ⟨a'', ha'', same⟩ := h.account? ha
      cases ha'.symm.trans ha''
      rw [same.isPlaceholder]
      exact only k a ha

end Ledger.SameBut

end JobAdmission

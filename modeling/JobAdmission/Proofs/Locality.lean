import JobAdmission.Proofs.Effect
import JobAdmission.Proofs.Scene

/-!
# Worlds, account by account

This module tells what a world shows at the account of a key (`World.scene`) and when it
is sound everywhere (`World.Sound`). A job is seen by the account that it is bound to and
by no other one (`SeenOnly`), so a call that puts one account back moves its job there,
and nothing happens at the other accounts (`World.Sound.step_of_put`).
-/

namespace JobAdmission

/-- The job as the account of a key sees it, if it is bound to that account. -/
def LiveJob.memberAt (l : LiveJob) (k : AccountKey) : Option Member :=
  (l.storage.binding.filter fun b => b.account.key = k).map fun b =>
    ⟨l.phase, b, l.storage.hasDependency heldLabel⟩

namespace World

variable {H : Type}

/-- What the world shows at the account of a key. -/
def scene (w : World H) (k : AccountKey) : Scene where
  account := w.account k
  arrived := w.arrived
  member := fun j => (w.live j).bind fun l => l.memberAt k

/-- The account that a live job is bound to. -/
def handleOf (w : World H) (j : JobId) : Option Handle :=
  (w.storage j).binding.map JobBinding.account

/-- The key of the account that a live job is bound to. -/
def accountOf (w : World H) (j : JobId) : Option AccountKey :=
  (w.storage j).binding.map (·.account.key)

/-- Those of some requests that make a job of the account of a key wait, or wait no longer. -/
def requestsAt (w : World H) (k : AccountKey) (rs : List HostRequest) : List HostRequest :=
  rs.filter fun r => r.waiting?.any fun j => w.accountOf j = some k

/-- The live jobs are known, and the world shows a sound scene at every account. -/
structure Sound (w : World H) : Prop where
  known : ∀ j l, w.live j = some l → j ∈ w.arrived
  scenes : ∀ k, (w.scene k).Sound k

end World

/-! ### Jobs at accounts -/

namespace LiveJob

variable {l : LiveJob} {k : AccountKey} {b : JobBinding}

theorem memberAt_of_binding (hb : l.storage.binding = some b) :
    l.memberAt b.account.key = some ⟨l.phase, b, l.storage.hasDependency heldLabel⟩ := by
  simp [memberAt, hb, Option.filter]

theorem memberAt_of_ne (hb : l.storage.binding = some b) (hk : b.account.key ≠ k) :
    l.memberAt k = none := by
  simp [memberAt, hb, Option.filter, hk]

theorem memberAt_of_unbound (hb : l.storage.binding = none) : l.memberAt k = none := by
  simp [memberAt, hb]

theorem memberAt_eq_some {m : Member} : l.memberAt k = some m ↔
    ∃ b, l.storage.binding = some b ∧ b.account.key = k ∧
      m = ⟨l.phase, b, l.storage.hasDependency heldLabel⟩ := by
  constructor
  · intro h
    cases hb : l.storage.binding with
    | none => simp [memberAt_of_unbound hb] at h
    | some b =>
      by_cases hk : b.account.key = k
      · rw [← hk, memberAt_of_binding hb] at h
        exact ⟨b, rfl, hk, by simpa using h.symm⟩
      · simp [memberAt_of_ne hb hk] at h
  · rintro ⟨b, hb, rfl, rfl⟩
    exact memberAt_of_binding hb

end LiveJob

/-- No account but that of the key sees the job, and that one sees it like this. -/
def SeenOnly (x : Option LiveJob) (m : Option Member) (k : AccountKey) : Prop :=
  ∀ k', (x.bind fun l => l.memberAt k') = if k = k' then m else none

theorem seenOnly_gone (k : AccountKey) : SeenOnly none none k := fun _ => by
  simp

theorem seenOnly_of_binding {l : LiveJob} {b : JobBinding} (hb : l.storage.binding = some b) :
    SeenOnly (some l) (some ⟨l.phase, b, l.storage.hasDependency heldLabel⟩) b.account.key := by
  intro k
  by_cases hk : b.account.key = k
  · rw [if_pos hk, ← hk]
    exact LiveJob.memberAt_of_binding hb
  · rw [if_neg hk]
    exact LiveJob.memberAt_of_ne hb hk

theorem seenOnly_of_marked {l : LiveJob} {b : JobBinding} {marked : Bool}
    (hb : l.storage.binding = some b) (hm : l.storage.hasDependency heldLabel = marked) :
    SeenOnly (some l) (some ⟨l.phase, b, marked⟩) b.account.key := hm ▸ seenOnly_of_binding hb

/-! ### The feed -/

/-- New terms replace those that were told before. -/
theorem Account.told_told (k : AccountKey) (a : Option Account) (t t' : Terms) :
    Account.told k (some (.told k a t)) t' = .told k a t' := by
  cases a with
  | none => rfl
  | some a => rfl

/-- Rows for an account leave it with the last terms that they grant. -/
theorem Ledger.account?_updates (l : Ledger) (us : List AccountUpdate) (k : AccountKey) :
    (us.foldl update l).account? k =
      match ((us.filter fun u => u.key = k).map (·.terms)).getLast? with
      | none => l.account? k
      | some terms => some (.told k (l.account? k) terms) := by
  induction us generalizing l with
  | nil => rfl
  | cons u us ih =>
    rw [List.foldl_cons, ih, account?_update]
    by_cases hk : u.key = k
    · have ofUpdate : ((l.account? k).map (·.refresh u.terms)).getD (.ofUpdate u) =
          .told k (l.account? k) u.terms := by
        subst hk
        rfl
      rw [if_pos hk, ofUpdate, List.filter_cons_of_pos (by simpa using hk), List.map_cons,
        List.getLast?_cons]
      cases ((us.filter fun u => u.key = k).map (·.terms)).getLast? with
      | none => rfl
      | some terms => simp [Account.told_told]
    · rw [if_neg hk, List.filter_cons_of_neg (by simpa using hk)]

/-! ### Calls -/

namespace World

variable {H : Type} {w w' : World H} {j : JobId} {l : LiveJob} {x : Option LiveJob}
  {k k₀ : AccountKey} {b : JobBinding} {a a' : Account} {m m' : Option Member} {refusing : Bool}
  {rs : List HostRequest} {asked : AccountKey → List HostRequest}

/-- A job that was never announced is not live. -/
theorem not_live_of_known (known : ∀ j l, w.live j = some l → j ∈ w.arrived)
    (hj : j ∉ w.arrived) : w.live j = none := by
  by_contra hne
  obtain ⟨l, hl⟩ := Option.ne_none_iff_exists'.mp hne
  exact hj (known j l hl)

theorem Sound.not_live (hs : w.Sound) (hj : j ∉ w.arrived) : w.live j = none :=
  not_live_of_known hs.known hj

theorem storage_of_live (hl : w.live j = some l) : w.storage j = l.storage := by
  rw [storage, hl]
  rfl

/-- Nothing is kept for a job that is not live. -/
theorem storage_of_not_live (hl : w.live j = none) : w.storage j = {} := by
  rw [storage, hl]
  rfl

theorem accountOf_eq (w : World H) (j : JobId) :
    w.accountOf j = (w.handleOf j).map Handle.key := (Option.map_map ..).symm

theorem accountOf_of_binding (hl : w.live j = some l) (hb : l.storage.binding = some b) :
    w.accountOf j = some b.account.key := by
  rw [accountOf, storage_of_live hl, hb]
  rfl

theorem scene_member_of_live (hl : w.live j = some l) : (w.scene k).member j = l.memberAt k := by
  simp [scene, hl]

theorem scene_member_of_binding (hl : w.live j = some l) (hb : l.storage.binding = some b) :
    (w.scene b.account.key).member j = some ⟨l.phase, b, l.storage.hasDependency heldLabel⟩ :=
  (scene_member_of_live hl).trans (LiveJob.memberAt_of_binding hb)

theorem scene_member_of_unbound (hl : w.live j = some l) (hb : l.storage.binding = none) :
    (w.scene k).member j = none :=
  (scene_member_of_live hl).trans (LiveJob.memberAt_of_unbound hb)

/-- A call on a job changes the place of that job. -/
theorem scene_member_update (hw : w'.live = Function.update w.live j x) :
    (w'.scene k).member =
      Function.update (w.scene k).member j (x.bind fun l => l.memberAt k) := by
  funext i
  by_cases hij : i = j
  · subst hij
    simp [scene, hw]
  · simp [scene, hw, Function.update_of_ne hij]

/-- Nothing happens at an account that stays as it is with the job's place at it. -/
theorem quiet_step (ha : w'.account k = w.account k) (hS : w.arrived ⊆ w'.arrived)
    (hw : w'.live = Function.update w.live j x)
    (hm : (x.bind fun l => l.memberAt k) = (w.scene k).member j) :
    Scene.Step k refusing [] [] (w.scene k) (w'.scene k) := by
  have member : (w'.scene k).member = (w.scene k).member := by
    rw [scene_member_update hw, hm, Function.update_eq_self]
  have scene : w'.scene k = ⟨(w.scene k).account, w'.arrived, (w.scene k).member⟩ := by
    rw [← member, show (w.scene k).account = (w'.scene k).account from ha.symm]
    rfl
  rw [scene]
  exact .quiet hS

/-- A call moves its job at an account. -/
theorem move_step (ha : w.account k = some a) (ha' : w'.account k = some a')
    (hS : w.arrived ⊆ w'.arrived) (hj : j ∈ w'.arrived)
    (hw : w'.live = Function.update w.live j x) (hm : (x.bind fun l => l.memberAt k) = m')
    (h : Move k j refusing rs a ((w.scene k).member j) a' m') :
    Scene.Step k refusing [] rs (w.scene k) (w'.scene k) := by
  have scene : w'.scene k =
      ⟨some a', w'.arrived, Function.update (w.scene k).member j m'⟩ := by
    rw [← hm, ← scene_member_update hw, ← ha']
    rfl
  rw [scene]
  exact .move hS hj ha h

/-- A call on a job that only one account sees moves it there, and nothing happens at the
other accounts. All that is asked for concerns that account. -/
theorem step_of_move (hm : SeenOnly (w.live j) m k₀) (hm' : SeenOnly x m' k₀)
    (ha : w.account k₀ = some a) (ha' : w'.account k₀ = some a')
    (hother : ∀ k, k₀ ≠ k → w'.account k = w.account k) (hS : w.arrived ⊆ w'.arrived)
    (hj : j ∈ w'.arrived) (hw : w'.live = Function.update w.live j x)
    (hrs : ∀ k, asked k = if k₀ = k then rs else []) (h : Move k₀ j refusing rs a m a' m')
    (k : AccountKey) : Scene.Step k refusing [] (asked k) (w.scene k) (w'.scene k) := by
  by_cases hk : k₀ = k
  · subst hk
    rw [hrs, if_pos rfl]
    have before : (w.scene k₀).member j = m := (hm k₀).trans (if_pos rfl)
    rw [← before] at h
    exact move_step ha ha' hS hj hw ((hm' k₀).trans (if_pos rfl)) h
  · rw [hrs, if_neg hk]
    refine quiet_step (hother k hk) hS hw ?_
    have before : (w.scene k).member j = none := (hm k).trans (if_neg hk)
    rw [before]
    exact (hm' k).trans (if_neg hk)

/-- A call on a job that one account sees moves it to another one, and nothing happens at
the other accounts. -/
theorem step_of_rebind {k₁ : AccountKey} {real : Account} (hne : k₀ ≠ k₁)
    (hm : SeenOnly (w.live j) m k₀) (hm' : SeenOnly x m' k₁) (ha : w.account k₀ = some a)
    (hreal : w.account k₁ = some real)
    (account : ∀ k, w'.account k = if k₁ = k then some a' else w.account k)
    (hS : w.arrived ⊆ w'.arrived) (hj : j ∈ w'.arrived)
    (hw : w'.live = Function.update w.live j x) (depart : Move k₀ j refusing [] a m a none)
    (hrs : ∀ k, asked k = if k₁ = k then rs else [])
    (moveIn : Move k₁ j refusing rs real none a' m') (k : AccountKey) :
    Scene.Step k refusing [] (asked k) (w.scene k) (w'.scene k) := by
  by_cases hk₁ : k₁ = k
  · subst hk₁
    rw [hrs, if_pos rfl]
    have before : (w.scene k₁).member j = none := (hm k₁).trans (if_neg hne)
    rw [← before] at moveIn
    exact move_step hreal (by simp [account]) hS hj hw ((hm' k₁).trans (if_pos rfl)) moveIn
  · rw [hrs, if_neg hk₁]
    have still : w'.account k = w.account k := by rw [account, if_neg hk₁]
    have after : (x.bind fun l => l.memberAt k) = none := (hm' k).trans (if_neg hk₁)
    by_cases hk₀ : k₀ = k
    · subst hk₀
      have before : (w.scene k₀).member j = m := (hm k₀).trans (if_pos rfl)
      rw [← before] at depart
      exact move_step ha (still.trans ha) hS hj hw after depart
    · have before : (w.scene k).member j = none := (hm k).trans (if_neg hk₀)
      exact quiet_step still hS hw (after.trans before.symm)

/-- A live job is bound to the account that is kept under the key. -/
theorem Sound.bound (hs : w.Sound) (hl : w.live j = some l)
    (hb : w.engine.boundAccount l.storage = some (b, a)) :
    l.storage.binding = some b ∧ w.account b.account.key = some a := by
  obtain ⟨hb, ha⟩ := Engine.boundAccount_eq_some.mp hb
  obtain ⟨a', ha', held⟩ := (hs.scenes b.account.key).housed j _ (scene_member_of_binding hl hb)
  have there := Ledger.object_of_account? ha'
  change b.account = a'.handle at held
  rw [← held, ha] at there
  exact ⟨hb, there ▸ ha'⟩

/-- The account under the key of a live job is the one that the job is bound to. -/
theorem Sound.boundAccount (hs : w.Sound) (hl : w.live j = some l)
    (hb : l.storage.binding = some b) (ha : w.account b.account.key = some a) :
    w.engine.boundAccount l.storage = some (b, a) := by
  obtain ⟨a', ha', held⟩ := (hs.scenes b.account.key).housed j _ (scene_member_of_binding hl hb)
  cases ha.symm.trans ha'
  exact Engine.boundAccount_eq_some.mpr ⟨hb, held ▸ Ledger.object_of_account? ha⟩

/-- A job of a key holds the account that was created first under it. -/
theorem Sound.handleOf_eq (hs : w.Sound) (hj : w.accountOf j = some k) :
    w.handleOf j = some ⟨k, 0⟩ := by
  obtain ⟨b, hb, rfl⟩ := Option.map_eq_some_iff.mp hj
  cases hl : w.live j with
  | none => simp [storage, hl] at hb
  | some l =>
    rw [handleOf, hb]
    rw [storage_of_live hl] at hb
    obtain ⟨a, ha, held⟩ := (hs.scenes b.account.key).housed j _ (scene_member_of_binding hl hb)
    exact congrArg some (held.trans ((hs.scenes b.account.key).keyed a ha))

/-- A call on a live job that puts the account of the job back. -/
theorem Sound.step_of_put (hs : w.Sound) (hl : w.live j = some l)
    (hb : w.engine.boundAccount l.storage = some (b, a))
    (hput : w'.engine.ledger = w.engine.ledger.put a') (hS : w'.arrived = w.arrived)
    (hw : w'.live = Function.update w.live j x)
    (hrs : ∀ k, asked k = if b.account.key = k then rs else [])
    (h : Move b.account.key j refusing rs a
      (some ⟨l.phase, b, l.storage.hasDependency heldLabel⟩) a' m')
    (hx : SeenOnly x m' b.account.key) (k : AccountKey) :
    Scene.Step k refusing [] (asked k) (w.scene k) (w'.scene k) := by
  obtain ⟨hb, ha⟩ := hs.bound hl hb
  have account : ∀ k, w'.account k = if b.account.key = k then some a' else w.account k := by
    intro k
    rw [World.account, hput, Ledger.account?_put_of_kept ha h.frame.1]
    rfl
  refine step_of_move (hl ▸ seenOnly_of_binding hb) hx ha (by simp [account]) (fun k hk => ?_)
    hS.ge (hS ▸ hs.known j l hl) hw hrs h k
  rw [account, if_neg hk]

/-- A call on a live job that leaves all accounts alone. -/
theorem Sound.step_of_still (hs : w.Sound) (hl : w.live j = some l)
    (hb : w.engine.boundAccount l.storage = some (b, a))
    (hstill : w'.engine.ledger = w.engine.ledger) (hS : w'.arrived = w.arrived)
    (hw : w'.live = Function.update w.live j x)
    (h : Move b.account.key j refusing [] a
      (some ⟨l.phase, b, l.storage.hasDependency heldLabel⟩) a m')
    (hx : SeenOnly x m' b.account.key) (k : AccountKey) :
    Scene.Step k refusing [] [] (w.scene k) (w'.scene k) := by
  obtain ⟨hb, ha⟩ := hs.bound hl hb
  have account : ∀ k, w'.account k = w.account k := by
    intro k
    rw [World.account, hstill]
    rfl
  have nothing : ∀ k, (fun _ : AccountKey => ([] : List HostRequest)) k =
      if b.account.key = k then [] else [] := fun _ => (ite_self _).symm
  exact step_of_move (hl ▸ seenOnly_of_binding hb) hx ha ((account _).trans ha)
    (fun k _ => account k) hS.ge (hS ▸ hs.known j l hl) hw nothing h k

/-- A call that changes neither an account nor what is seen of its job. -/
theorem quiet_of_still (hstill : w'.engine.ledger = w.engine.ledger) (hS : w'.arrived = w.arrived)
    (hw : w'.live = Function.update w.live j x)
    (hm : (x.bind fun l => l.memberAt k) = (w.scene k).member j) :
    Scene.Step k refusing [] [] (w.scene k) (w'.scene k) := by
  refine quiet_step ?_ hS.ge hw hm
  rw [World.account, hstill]
  rfl

end World

end JobAdmission

import JobAdmission.Engine.Dispatch
import JobAdmission.Proofs.Effect
import JobAdmission.Proofs.Gate

/-!
# What steps keep

This module says once all that a step of a job can do to the ledger (`Engine.stepOf_ledger`): it
can create a placeholder for the job's user, and then the job can pass by one account, whose
usage is another one after that (`Ledger.PassedBy`). From this it follows what no step changes
(`Engine.growsTo_stepOf`): no account is lost, none is granted other terms, none becomes real, no
default bank is replaced, and the queues and projects stay. So where a placeholder is found for a
job, or where no account is real, no real account is found before the feed tells of one
(`Ledger.Unresolved.of_growsTo`). No account is put in the place of another one under a key, so who
holds an account finds it there (`Ledger.Keyed`), and every account has a default bank beside it
(`Ledger.Banked`). Nor does a step change the configuration (`Engine.stepOf_config`), and for a job
that is bound to nothing, it keeps nothing unless the job is announced
(`Engine.stepOf_storage_of_unbound`).
-/

namespace JobAdmission

/-! ### Accounts -/

namespace Account

variable {a a' a₁ a₂ : Account} {j : JobId}

/-- The account after some of its jobs passed: only its usage is another one. -/
def UsedAs (a a' : Account) : Prop := ∃ usage, a' = { a with usage }

theorem UsedAs.refl (a : Account) : a.UsedAs a := ⟨a.usage, rfl⟩

theorem UsedAs.trans (h : a.UsedAs a₁) (h' : a₁.UsedAs a₂) : a.UsedAs a₂ := by
  obtain ⟨usage, rfl⟩ := h
  obtain ⟨usage', rfl⟩ := h'
  exact ⟨usage', rfl⟩

theorem usedAs_withGate (a : Account) (gate : Gate) : a.UsedAs (a.withGate gate) := ⟨_, rfl⟩

theorem usedAs_enterGate {decision : Gate.Decision} (h : a.enterGate j = (decision, a₁)) :
    a.UsedAs a₁ := by
  obtain ⟨gate, rfl⟩ := eq_withGate_of_enterGate h
  exact usedAs_withGate a gate

theorem usedAs_leave {b : JobBinding} {ran freed : Bool} (h : a.leave j b ran = (freed, a₁)) :
    a.UsedAs a₁ := by
  obtain ⟨-, rfl⟩ := leave_eq h
  exact ⟨_, rfl⟩

theorem usedAs_releaseNext {next : Option JobId} (h : a.releaseNext = (next, a₁)) :
    a.UsedAs a₁ := by
  cases h
  exact usedAs_withGate a _

theorem sublist_leave {b : JobBinding} {ran freed : Bool} (h : a.leave j b ran = (freed, a₁)) :
    a₁.usage.gate.held.Sublist a.usage.gate.held := by
  obtain ⟨-, rfl⟩ := leave_eq h
  exact List.filter_sublist

theorem sublist_releaseNext {next : Option JobId} (h : a.releaseNext = (next, a₁)) :
    a₁.usage.gate.held.Sublist a.usage.gate.held := by
  cases next with
  | none =>
    obtain ⟨-, rfl⟩ := releaseNext_none h
    exact .refl _
  | some next =>
    obtain ⟨rest, held, -, rfl⟩ := releaseNext_some h
    exact held ▸ List.sublist_cons_self next rest

/-- A job whose release is taken back is the oldest held one again. -/
theorem held_unrelease {next : JobId} (h : a.releaseNext = (some next, a₁)) :
    (a₁.unrelease next).usage.gate.held = a.usage.gate.held := by
  obtain ⟨rest, held, -, rfl⟩ := releaseNext_some h
  simp [unrelease, withGate, Gate.unrelease, held]

/-- The account after a job passed: only its usage is another one, the held jobs kept their
order, and none came but the job, as the last one. -/
structure PassedBy (j : JobId) (a a' : Account) : Prop where
  /-- Only the usage is another one. -/
  used : a.UsedAs a'
  /-- Held jobs left, or the job came. -/
  queue : a'.usage.gate.held.Sublist a.usage.gate.held ∨
    a'.usage.gate.held = a.usage.gate.held ++ [j]

theorem PassedBy.of_sublist (used : a.UsedAs a')
    (held : a'.usage.gate.held.Sublist a.usage.gate.held) : a.PassedBy j a' := ⟨used, .inl held⟩

theorem passedBy_enterGate {decision : Gate.Decision} (h : a.enterGate j = (decision, a₁)) :
    a.PassedBy j a₁ := by
  refine ⟨usedAs_enterGate h, ?_⟩
  cases decision with
  | proceed r =>
    obtain ⟨-, -, rfl⟩ := enterGate_proceed h
    exact .inl (.refl _)
  | hold =>
    obtain ⟨-, rfl⟩ := enterGate_hold h
    exact .inr rfl

theorem passedBy_unhold (h : a.enterGate j = (.hold, a₁)) : a.PassedBy j (a₁.unhold j) := by
  refine .of_sublist ((usedAs_enterGate h).trans (usedAs_withGate ..)) ?_
  obtain ⟨-, rfl⟩ := enterGate_hold h
  simp [unhold, withGate, Gate.withdraw, Gate.freeSlot]

end Account

/-! ### Ledgers -/

namespace Ledger

variable {l l₁ l₂ : Ledger} {a a' : Account} {k : AccountKey} {userid : UserId}
  {bank : Option String}

/-- Every account is the first one that was created under its key, so no account was ever
put in the place of another one. -/
def Keyed (l : Ledger) : Prop :=
  ∀ (k : AccountKey) (a : Account), l.account? k = some a → a.handle = ⟨k, 0⟩

/-- Whoever holds an account finds it under its key. -/
theorem Keyed.kept {h : Handle} (hl : l.Keyed) (ha : l.objects[h]? = some a) :
    l.account? h.key = some a := by
  have there : h ∈ l.objects := Std.ExtTreeMap.mem_iff_isSome_getElem?.mpr (by simp [ha])
  obtain ⟨n, hn, le⟩ := (l.numbered h).mp there
  have last : l.handle? h.key = some ⟨h.key, n⟩ := by simp [handle?, hn]
  obtain ⟨a', ha', same⟩ := Option.map_eq_some_iff.mp ((l.handle?_eq h.key).symm.trans last)
  have first : n = 0 := congrArg Handle.serial (same.symm.trans (hl h.key a' ha'))
  have meant : h = ⟨h.key, n⟩ := by
    obtain ⟨k, m⟩ := h
    simp only [Handle.mk.injEq, true_and] at le ⊢
    omega
  rw [account?_of_handle? last, ← meant, ha]

/-- What was in the ledger is still in it, and only placeholders came. -/
structure GrowsTo (l l' : Ledger) : Prop where
  /-- Accounts stay, with the terms that they were granted. -/
  objects : ∀ (h : Handle) (a : Account), l.objects[h]? = some a →
    ∃ a', l'.objects[h]? = some a' ∧ a.UsedAs a'
  /-- The account of a key stays the one that it is. -/
  kept : ∀ (k : AccountKey) (h : Handle), l.handle? k = some h → l'.handle? k = some h
  /-- An account that comes is a placeholder. -/
  comes : ∀ (k : AccountKey) (a : Account), l'.account? k = some a →
    l.account? k = none →
      a.isPlaceholder = true ∧ a.handle = ⟨k, 0⟩ ∧ k.bank = Account.placeholderBank
  /-- The user of an account that comes has a default bank. -/
  banked : ∀ (k : AccountKey) (a : Account), l'.account? k = some a → l.account? k = none →
    ∃ bank, l'.defaultBanks[k.userid]? = some bank
  /-- Default banks stay. -/
  defaults : ∀ (userid : UserId) (bank : String), l.defaultBanks[userid]? = some bank →
    l'.defaultBanks[userid]? = some bank
  /-- Queues stay. -/
  queues : l'.queues = l.queues
  /-- Projects stay. -/
  projects : l'.projects = l.projects

/-- Accounts stay under their keys. -/
theorem GrowsTo.stays (h : l.GrowsTo l₁) (k : AccountKey) (a : Account)
    (ha : l.account? k = some a) : ∃ a', l₁.account? k = some a' ∧ a.UsedAs a' := by
  have there := handle?_of_account? ha
  obtain ⟨a', ha', used⟩ := h.objects a.handle a (object_of_account? ha)
  exact ⟨a', (account?_of_handle? (h.kept k _ there)).trans ha', used⟩

theorem GrowsTo.refl (l : Ledger) : l.GrowsTo l where
  objects _ a ha := ⟨a, ha, .refl a⟩
  kept _ _ hk := hk
  comes k a ha hnone := by simp [hnone] at ha
  banked k a ha hnone := by simp [hnone] at ha
  defaults _ _ h := h
  queues := rfl
  projects := rfl

theorem GrowsTo.trans (h : l.GrowsTo l₁) (h' : l₁.GrowsTo l₂) : l.GrowsTo l₂ where
  objects k a ha := by
    obtain ⟨a₁, ha₁, used⟩ := h.objects k a ha
    obtain ⟨a₂, ha₂, used'⟩ := h'.objects k a₁ ha₁
    exact ⟨a₂, ha₂, used.trans used'⟩
  kept k h₀ hk := h'.kept k h₀ (h.kept k h₀ hk)
  comes k a ha hnone := by
    cases h₁ : l₁.account? k with
    | none => exact h'.comes k a ha h₁
    | some a₁ =>
      obtain ⟨hp, hk, hbank⟩ := h.comes k a₁ h₁ hnone
      obtain ⟨a₂, ha₂, usage, rfl⟩ := h'.stays k a₁ h₁
      cases ha.symm.trans ha₂
      exact ⟨hp, hk, hbank⟩
  banked k a ha hnone := by
    cases h₁ : l₁.account? k with
    | none => exact h'.banked k a ha h₁
    | some a₁ =>
      obtain ⟨bank, hd⟩ := h.banked k a₁ h₁ hnone
      exact ⟨bank, h'.defaults _ _ hd⟩
  defaults userid bank hd := h'.defaults userid bank (h.defaults userid bank hd)
  queues := h'.queues.trans h.queues
  projects := h'.projects.trans h.projects

/-- Putting an account back where it was taken from. -/
theorem growsTo_put {h : Handle} (ha : l.objects[h]? = some a) (used : a.UsedAs a') :
    l.GrowsTo (l.put a') := by
  obtain ⟨usage, rfl⟩ := used
  -- no account comes
  have there : ∀ (k₀ : AccountKey) (a₀ : Account), (l.put { a with usage }).account? k₀ =
      some a₀ → l.account? k₀ ≠ none := by
    intro k₀ a₀ ha₀ hnone
    have put := handle?_of_account? ha₀
    rw [handle?_put, handle?_eq, hnone] at put
    cases put
  refine ⟨fun h₀ a₀ ha₀ => ?_, fun _ _ hk => hk,
    fun k₀ a₀ ha₀ hnone => absurd hnone (there k₀ a₀ ha₀),
    fun k₀ a₀ ha₀ hnone => absurd hnone (there k₀ a₀ ha₀), fun _ _ h => h, rfl, rfl⟩
  have same : ({ a with usage } : Account).handle = a.handle := rfl
  rw [getElem?_objects_put_of_mem ha same]
  split
  · rename_i hk
    subst hk
    cases ha.symm.trans ha₀
    exact ⟨_, rfl, usage, rfl⟩
  · exact ⟨a₀, ha₀, .refl a₀⟩

/-- The ledger after a job passed by one of the accounts, or by none. -/
inductive PassedBy (j : JobId) (l : Ledger) : Ledger → Prop where
  /-- No account was passed by. -/
  | still : l.PassedBy j l
  /-- One account was passed by. -/
  | put {h : Handle} {a a' : Account} (ha : l.objects[h]? = some a)
    (passed : a.PassedBy j a') : l.PassedBy j (l.put a')

theorem PassedBy.growsTo {j : JobId} (h : l.PassedBy j l₁) : l.GrowsTo l₁ := by
  cases h with
  | still => exact .refl l
  | put ha passed => exact growsTo_put ha passed.used

theorem growsTo_ensurePlaceholder (l : Ledger) (userid : UserId) (fairshare : Binary64) :
    l.GrowsTo (l.ensurePlaceholder userid fairshare) := by
  refine ⟨fun h a ha => ⟨a, ?_, .refl a⟩, fun k h hk => ?_, fun k a ha hnone => ?_,
    fun k a ha hnone => ?_, fun u bank hd => ?_, by simp, by simp⟩
  · exact objects_ensurePlaceholder_of_mem userid fairshare ha
  · obtain ⟨a, ha, rfl⟩ := Option.map_eq_some_iff.mp ((l.handle?_eq k).symm.trans hk)
    apply handle?_of_account?
    rw [account?_ensurePlaceholder, if_neg fun h => by simp [ha] at h, ha]
  · rw [account?_ensurePlaceholder] at ha
    split at ha
    · rename_i h
      cases ha
      exact ⟨rfl, congrArg (Handle.mk · 0) h.1.symm, congrArg AccountKey.bank h.1⟩
    · rw [hnone] at ha
      cases ha
  · rw [account?_ensurePlaceholder] at ha
    split at ha
    · rename_i h
      obtain ⟨rfl, -⟩ := h
      rw [getElem?_defaultBanks_ensurePlaceholder]
      split
      · exact ⟨_, rfl⟩
      · rename_i there
        exact Option.ne_none_iff_exists'.mp fun hnone => there ⟨rfl, hnone⟩
    · rw [hnone] at ha
      cases ha
  · rw [getElem?_defaultBanks_ensurePlaceholder, if_neg]
    · exact hd
    · rintro ⟨-, hnone⟩
      cases hnone.symm.trans hd

theorem Keyed.of_growsTo (hl : l.Keyed) (h : l.GrowsTo l₁) : l₁.Keyed := by
  intro k a₁ ha₁
  cases hnone : l.account? k with
  | none => exact (h.comes k a₁ ha₁ hnone).2.1
  | some a =>
    obtain ⟨_, ha', usage, rfl⟩ := h.stays k a hnone
    cases ha₁.symm.trans ha'
    exact hl k a hnone

/-- An account is a placeholder, or is not, as long as the ledger only grows. -/
theorem GrowsTo.real (h : l.GrowsTo l₁) (ha : l₁.account? k = some a)
    (hreal : a.isPlaceholder = false) : ∃ a₀, l.account? k = some a₀ ∧ a₀.UsedAs a := by
  cases hnone : l.account? k with
  | none =>
    have placeholder := (h.comes k a ha hnone).1
    simp [hreal] at placeholder
  | some a₀ =>
    obtain ⟨a', ha', used⟩ := h.stays k a₀ hnone
    cases ha.symm.trans ha'
    exact ⟨a₀, rfl, used⟩

/-! ### Users with a default bank -/

/-- Every user with an account has a default bank. -/
def Banked (l : Ledger) : Prop :=
  ∀ (k : AccountKey) (a : Account), l.account? k = some a →
    ∃ bank, l.defaultBanks[k.userid]? = some bank

theorem Banked.update (hl : l.Banked) (u : AccountUpdate) : (l.update u).Banked := by
  intro k a ha
  rw [getElem?_defaultBanks_update]
  by_cases hu : u.key.userid = k.userid
  · exact ⟨_, if_pos hu⟩
  · have other : u.key ≠ k := fun h => hu (congrArg AccountKey.userid h)
    rw [account?_update, if_neg other] at ha
    rw [if_neg hu]
    exact hl k a ha

theorem Banked.updates (hl : l.Banked) (us : List AccountUpdate) :
    (us.foldl Ledger.update l).Banked := by
  induction us generalizing l with
  | nil => exact hl
  | cons u us ih => exact ih (hl.update u)

theorem Banked.of_growsTo (hl : l.Banked) (h : l.GrowsTo l₁) : l₁.Banked := by
  intro k a ha
  cases hbefore : l.account? k with
  | none => exact h.banked k a ha hbefore
  | some a₀ =>
    obtain ⟨bank, hd⟩ := hl k a₀ hbefore
    exact ⟨bank, h.defaults _ _ hd⟩

/-! ### What is found -/

theorem lookup_of_some {b : String} (hb : l.bankFor userid bank = some b)
    (ha : l.account? ⟨userid, b⟩ = some a) :
    l.lookup userid bank = if a.isPlaceholder then .placeholder a else .found a := by
  simp [lookup, hb, ha]

/-- What is found is kept under a key of the user's. -/
theorem exists_of_lookup
    (h : l.lookup userid bank = .found a ∨ l.lookup userid bank = .placeholder a) :
    ∃ b, l.bankFor userid bank = some b ∧ l.account? ⟨userid, b⟩ = some a := by
  unfold lookup at h
  split at h
  · rcases h with h | h <;> cases h
  · rename_i a' hfind
    obtain ⟨b, hb, ha⟩ := Option.bind_eq_some_iff.mp hfind
    split at h
    · rcases h with h | h <;> cases h
      exact ⟨b, hb, ha⟩
    · rcases h with h | h <;> cases h
      exact ⟨b, hb, ha⟩

theorem isPlaceholder_of_found (h : l.lookup userid bank = .found a) : a.isPlaceholder = false := by
  obtain ⟨b, hb, ha⟩ := exists_of_lookup (.inl h)
  rw [lookup_of_some hb ha] at h
  split at h
  · cases h
  · rename_i hp
    simpa using hp

theorem isPlaceholder_of_lookup (h : l.lookup userid bank = .placeholder a) :
    a.isPlaceholder = true := by
  obtain ⟨b, hb, ha⟩ := exists_of_lookup (.inr h)
  rw [lookup_of_some hb ha] at h
  split at h
  · assumption
  · cases h

/-- What is found is the user's, and is kept under its key. -/
theorem account?_of_lookup
    (h : l.lookup userid bank = .found a ∨ l.lookup userid bank = .placeholder a) :
    l.account? a.key = some a ∧ a.key.userid = userid := by
  obtain ⟨b, -, ha⟩ := exists_of_lookup h
  rw [key_of_account? ha]
  exact ⟨ha, rfl⟩

/-! ### What is not found -/

theorem onlyPlaceholders_iff : l.onlyPlaceholders = true ↔
    ∀ (k : AccountKey) (a : Account), l.account? k = some a → a.isPlaceholder = true := by
  rw [onlyPlaceholders, List.all_eq_true]
  constructor
  · exact fun h k a ha => h (k, a) (mem_entries.mpr ha)
  · exact fun h e he => h e.1 e.2 (mem_entries.mp he)

/-- No real account can be found for a user and a bank yet: a placeholder is found, or no
account is real. -/
def Unresolved (l : Ledger) (userid : UserId) (bank : Option String) : Prop :=
  l.onlyPlaceholders = true ∨ ∃ a, l.lookup userid bank = .placeholder a

theorem Unresolved.ne_found (h : l.Unresolved userid bank) (a : Account) :
    l.lookup userid bank ≠ .found a := by
  intro hf
  rcases h with only | ⟨p, hp⟩
  · obtain ⟨b, -, ha⟩ := exists_of_lookup (.inl hf)
    have placeholder := onlyPlaceholders_iff.mp only _ a ha
    simp [isPlaceholder_of_found hf] at placeholder
  · cases hf.symm.trans hp

theorem Unresolved.only_of_notFound (h : l.Unresolved userid bank)
    (hl : l.lookup userid bank = .notFound) : l.onlyPlaceholders = true := by
  rcases h with only | ⟨p, hp⟩
  · exact only
  · cases hl.symm.trans hp

/-- While the ledger only grows, no real account comes to be found. -/
theorem Unresolved.of_growsTo (h : l.Unresolved userid bank) (grows : l.GrowsTo l₁) :
    l₁.Unresolved userid bank := by
  rcases h with only | ⟨p, hp⟩
  · left
    rw [onlyPlaceholders_iff] at only ⊢
    intro k a ha
    by_contra real
    obtain ⟨a₀, ha₀, usage, rfl⟩ := grows.real ha (by simpa using real)
    exact real (only k a₀ ha₀)
  · right
    obtain ⟨b, hb, ha⟩ := exists_of_lookup (.inr hp)
    obtain ⟨p', ha', usage, rfl⟩ := grows.stays _ p ha
    have placeholder : p.isPlaceholder = true := isPlaceholder_of_lookup hp
    refine ⟨_, (lookup_of_some ?_ ha').trans (if_pos placeholder)⟩
    -- the bank is the one that the job names, or the default
    cases bank with
    | some name => exact hb
    | none => exact grows.defaults userid b hb

end Ledger

/-! ### Steps -/

namespace Engine

variable {H : Type} {e : Engine H} {s : JobStorage} {b : JobBinding} {a : Account}

/-- A real account that is found for a job is another one than the placeholder that the job is bound
to. -/
theorem ne_of_found (hb : e.boundAccount s = some (b, a))
    (hp : a.isPlaceholder = true) {real : Account} {userid : UserId} {bank : Option String}
    (hf : e.ledger.lookup userid bank = .found real) : b.account ≠ real.handle := by
  intro same
  have ha := (boundAccount_eq_some.mp hb).2
  rw [same, Ledger.object_of_account? (Ledger.account?_of_lookup (.inl hf)).1] at ha
  cases ha
  simp [Ledger.isPlaceholder_of_found hf] at hp

/-- A job that is bound to nothing starts at an account that is kept under its key. -/
theorem handle?_startBinding (e : Engine H) (job : Job) {s : JobStorage} (hs : s.binding = none) :
    (e.startBinding job s).2.2.ledger.handle? (e.startBinding job s).1.account.key =
      some (e.startBinding job s).1.account := by
  have kept : ∀ a, (e.ledger.lookup job.userid job.bank = .found a ∨
      e.ledger.lookup job.userid job.bank = .placeholder a) →
      e.ledger.handle? a.key = some a.handle := fun a h =>
    Ledger.handle?_of_account? (Ledger.account?_of_lookup h).1
  obtain ⟨a, hl, start⟩ | ⟨a, hl, start⟩ | ⟨-, start⟩ := e.startBinding_cases job hs
  · rw [start]
    exact kept a (.inl hl)
  · rw [start]
    exact kept a (.inr hl)
  · have created := e.ledger.handle?_ensurePlaceholder job.userid e.config.placeholderFairshare
    rw [start]
    change (e.ledger.ensurePlaceholder job.userid e.config.placeholderFairshare).handle?
      (e.ledger.placeholderHandle job.userid).key = _
    rw [Ledger.key_of_handle? created, created]

theorem growsTo_startBinding (e : Engine H) (job : Job) (s : JobStorage) :
    e.ledger.GrowsTo (e.startBinding job s).2.2.ledger := by
  cases hs : s.binding with
  | some b =>
    rw [startBinding_of_bound e job hs]
    exact .refl _
  | none =>
    obtain ⟨_, -, same | created⟩ := e.startBinding_unbound job hs
    · rw [same]
      exact .refl _
    · rw [created]
      exact Ledger.growsTo_ensurePlaceholder ..

variable [Scheduler H] {job : Job} {rs : List HostRequest} {host : H} {ledger : Ledger}
  {s' : JobStorage}

theorem NewJobEffect.passedBy {h : H} {l : Ledger} {byDefault : Bool}
    {outcome : Except HandlerError Unit}
    (effect : NewJobEffect h job l b byDefault s outcome rs host ledger s') :
    l.PassedBy job.id ledger := by
  cases effect with
  | rejected | placed | detached => exact .still
  | enrolled ha =>
    refine .put ha ?_
    split
    · exact .of_sublist ⟨_, rfl⟩ (.refl _)
    · exact .of_sublist ⟨_, rfl⟩ (.refl _)

theorem DependEffect.passedBy {outcome : Except HandlerError DependOutcome}
    (effect : DependEffect e job s outcome rs host ledger s') :
    e.ledger.PassedBy job.id ledger := by
  cases effect with
  | unbound | waved => exact .still
  | admitted hb _ hg | held hb _ hg =>
    exact .put (boundAccount_eq_some.mp hb).2 (Account.passedBy_enterGate hg)
  | refused hb _ hg => exact .put (boundAccount_eq_some.mp hb).2 (Account.passedBy_unhold hg)

omit [Scheduler H] in
theorem RunEffect.passedBy (effect : RunEffect e job s ledger s') :
    e.ledger.PassedBy job.id ledger := by
  cases effect with
  | unbound => exact .still
  | started hb => exact .put (boundAccount_eq_some.mp hb).2 (.of_sublist ⟨_, rfl⟩ (.refl _))

theorem InactiveEffect.passedBy {outcome : Except HandlerError Unit}
    (effect : InactiveEffect e job s outcome rs host ledger s') :
    e.ledger.PassedBy job.id ledger := by
  cases effect with
  | unbound => exact .still
  | left hb hl =>
    exact .put (boundAccount_eq_some.mp hb).2
      (.of_sublist (Account.usedAs_leave hl) (Account.sublist_leave hl))
  | freed hb hl hr | released hb hl hr =>
    exact .put (boundAccount_eq_some.mp hb).2
      (.of_sublist ((Account.usedAs_leave hl).trans (Account.usedAs_releaseNext hr))
        ((Account.sublist_releaseNext hr).trans (Account.sublist_leave hl)))
  | kept hb hl hr =>
    have used := (Account.usedAs_leave hl).trans (Account.usedAs_releaseNext hr)
    exact .put (boundAccount_eq_some.mp hb).2
      (.of_sublist (used.trans (Account.usedAs_withGate ..))
        (Account.held_unrelease hr ▸ Account.sublist_leave hl))

theorem PriorityEffect.passedBy {outcome : Except HandlerError PriorityOutcome}
    (effect : PriorityEffect e job s outcome rs host ledger s') :
    e.ledger.PassedBy job.id ledger := by
  cases effect with
  | unbound | prioritized | stayed => exact .still
  | refused _ _ hf hg =>
    obtain ⟨_, -, ha⟩ := Ledger.exists_of_lookup (.inl hf)
    exact .put (Ledger.object_of_account? ha) (Account.passedBy_unhold hg)
  | rebound _ _ hf hg =>
    obtain ⟨_, -, ha⟩ := Ledger.exists_of_lookup (.inl hf)
    have passed := Account.passedBy_enterGate hg
    exact .put (Ledger.object_of_account? ha) ⟨passed.used.trans ⟨_, rfl⟩, passed.queue⟩

omit [Scheduler H] in
theorem QueueUpdatedEffect.passedBy (effect : QueueUpdatedEffect e s ledger s') :
    e.ledger.PassedBy job.id ledger := by
  cases effect with
  | ignored => exact .still
  | settled hb => exact .put (boundAccount_eq_some.mp hb).2 (.of_sublist ⟨_, rfl⟩ (.refl _))

/-- All that a step does to the ledger: it can create a placeholder for the job's user, and then
the job can pass by one account. -/
theorem stepOf_ledger (e : Engine H) (topic : Topic) (args : Json) (job : Job) (s : JobStorage) :
    ∃ l, (l = e.ledger ∨
        l = e.ledger.ensurePlaceholder job.userid e.config.placeholderFairshare) ∧
      l.PassedBy job.id (e.stepOf topic args job s).engine.ledger := by
  cases topic with
  | validate => exact ⟨_, e.validate_ledger job s, .still⟩
  | new =>
    obtain ⟨rs, effect⟩ := e.newJob_effect job s
    refine ⟨_, ?_, effect.passedBy⟩
    cases hs : s.binding with
    | some b =>
      rw [startBinding_of_bound e job hs]
      exact .inl rfl
    | none =>
      obtain ⟨_, -, ledger⟩ := e.startBinding_unbound job hs
      exact ledger
  | depend =>
    obtain ⟨rs, effect⟩ := e.depend_effect job s
    exact ⟨_, .inl rfl, effect.passedBy⟩
  | priority | priorityGet =>
    obtain ⟨rs, effect⟩ := e.priority_effect job s
    exact ⟨_, .inl rfl, effect.passedBy⟩
  | run => exact ⟨_, .inl rfl, (e.run_effect job s).passedBy⟩
  | inactive =>
    obtain ⟨rs, effect⟩ := e.inactive_effect job s
    exact ⟨_, .inl rfl, effect.passedBy⟩
  | updateQueue =>
    refine ⟨_, .inl rfl, ?_⟩
    have ledger := (e.updateQueue_effect job s (proposedQueue args)).1
    change e.ledger.PassedBy job.id (e.updateQueue job s (proposedQueue args)).engine.ledger
    rw [ledger]
    exact .still
  | queueUpdated => exact ⟨_, .inl rfl, (e.queueUpdated_effect job s).passedBy⟩

/-- A step loses no account and makes none real, and leaves alone all that the feed told. -/
theorem growsTo_stepOf (e : Engine H) (topic : Topic) (args : Json) (job : Job)
    (s : JobStorage) : e.ledger.GrowsTo (e.stepOf topic args job s).engine.ledger := by
  obtain ⟨l, rfl | rfl, passed⟩ := e.stepOf_ledger topic args job s
  · exact passed.growsTo
  · exact (e.ledger.growsTo_ensurePlaceholder job.userid e.config.placeholderFairshare).trans
      passed.growsTo

/-! ### Jobs that are bound to nothing -/

/-- Nothing is kept for a job that is bound to nothing, unless it is announced. -/
theorem stepOf_storage_of_unbound (e : Engine H) {topic : Topic} (args : Json) (job : Job)
    {s : JobStorage} (hs : s.binding = none) (ht : topic ≠ .new) :
    (e.stepOf topic args job s).storage = s := by
  have hb := boundAccount_of_unbound (e := e) hs
  cases topic with
  | new => exact absurd rfl ht
  | validate => exact e.validate_storage job s
  | depend =>
    change (e.depend job s).storage = s
    rw [depend, hb]
    rfl
  | priority | priorityGet =>
    change (e.priority job s).storage = s
    rw [priority, hb]
    rfl
  | run =>
    change (e.run job s).storage = s
    rw [run, hb]
    rfl
  | inactive =>
    change (e.inactive job s).storage = s
    rw [inactive, hb]
    rfl
  | updateQueue => exact (e.updateQueue_effect job s (proposedQueue args)).2.2
  | queueUpdated =>
    change (e.queueUpdated job s).storage = s
    rw [queueUpdated, hb]
    rfl

/-! ### Configurations -/

theorem patch_config (e : Engine H) (job : Job) (ps : List JobspecPatch) :
    (e.patch job ps).2.config = e.config := by
  rw [patch_eq]

omit [Scheduler H] in
theorem startBinding_config (e : Engine H) (job : Job) (s : JobStorage) :
    (e.startBinding job s).2.2.config = e.config := by
  unfold startBinding
  split
  · rfl
  · split <;> rfl

theorem enroll_config (e : Engine H) (job : Job) (s : JobStorage) (b : JobBinding)
    (account : Account) (byDefault : Bool) (factor : Int64) :
    (e.enroll job s b account byDefault factor).engine.config = e.config := by
  unfold enroll
  simp only
  split
  all_goals
    rename_i hpatch
    exact (congrArg (fun p => p.2.config) hpatch).symm.trans (patch_config _ _ _)

theorem newJob_config (e : Engine H) (job : Job) (s : JobStorage) :
    (e.newJob job s).engine.config = e.config := by
  have start := e.startBinding_config job s
  unfold newJob
  simp only
  split
  · exact start
  · unfold bindTo
    split
    · exact start
    · split
      · exact start
      · split
        · exact start
        · split
          · exact start
          · exact (enroll_config ..).trans start

theorem rebind_config (e : Engine H) (job : Job) (s : JobStorage) (b : JobBinding)
    (account : Account) : (e.rebind job s b account).engine.config = e.config := by
  unfold rebind
  split
  · rfl
  · split
    · rfl
    · simp only
      split
      all_goals
        rename_i hpatch
        refine (congrArg (fun p => p.2.config) hpatch).symm.trans
          ((patch_config _ _ _).trans ?_)
        split
        · rfl
        · rfl

/-- No step changes the configuration. -/
theorem stepOf_config (e : Engine H) (topic : Topic) (args : Json) (job : Job) (s : JobStorage) :
    (e.stepOf topic args job s).engine.config = e.config := by
  cases topic with
  | validate =>
    show (e.validate job s).engine.config = e.config
    unfold validate
    split
    · rfl
    · split <;> rfl
    · split <;> rfl
  | new => exact e.newJob_config job s
  | depend =>
    show (e.depend job s).engine.config = e.config
    unfold depend
    split
    · rfl
    · split
      · rfl
      · split <;> rfl
  | priority | priorityGet =>
    show (e.priority job s).engine.config = e.config
    unfold priority
    split
    · rfl
    · split
      · split
        · exact rebind_config ..
        · rfl
        · split <;> rfl
      · rfl
  | run =>
    show (e.run job s).engine.config = e.config
    unfold run
    split <;> rfl
  | inactive =>
    show (e.inactive job s).engine.config = e.config
    unfold inactive release
    split
    · rfl
    · simp only
      split
      · split
        · rfl
        · split <;> rfl
      · rfl
  | updateQueue =>
    show (e.updateQueue job s (proposedQueue args)).engine.config = e.config
    unfold updateQueue
    split
    · rfl
    · split <;> rfl
  | queueUpdated =>
    show (e.queueUpdated job s).engine.config = e.config
    unfold queueUpdated
    split
    · rfl
    · split
      · rfl
      · split <;> rfl

end Engine

end JobAdmission

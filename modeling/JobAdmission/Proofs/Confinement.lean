import JobAdmission.Proofs.FailedCalls

/-!
# Steps keep to the accounts of their jobs

This module proves that a step of a job changes no account but the one that the job is bound to
before the step and the one that it is bound to after it, and that it can create the placeholder of
its user besides (`Engine.stepOf_confined`). A step works on the account of its job, with one
exception: where the scheduler refuses to hold a job that is about to be moved, the job was already
put into the gate of the real account and is taken out again. That leaves no trace if the gate did
not know the job before. So the steps are followed together with what the gates know
(`Account.Knows`): a job is known only to the gate of the account that it is bound to, and
placeholders know none (`Ledger.Houses`).
-/

namespace JobAdmission

/-! ### Jobs that a gate knows -/

namespace Account

variable {a a' a₁ : Account} {i j n : JobId} {b : JobBinding} {ran freed : Bool}

/-- The gate of the account holds the job or released it. -/
def Knows (a : Account) (j : JobId) : Prop := j ∈ a.usage.gate.held ∨ j ∈ a.usage.gate.released

theorem not_knows_placeholder (userid : UserId) (fairshare : Binary64) :
    ¬ (placeholder userid fairshare).Knows i := by
  rintro (h | h)
  · exact List.not_mem_nil h
  · exact Std.ExtTreeSet.not_mem_empty h

/-- A gate comes to know the job that enters, and no other one. -/
theorem knows_enterGate {decision : Gate.Decision} (h : a.enterGate j = (decision, a'))
    (hi : a'.Knows i) : a.Knows i ∨ i = j := by
  cases decision with
  | proceed r =>
    obtain ⟨-, -, rfl⟩ := enterGate_proceed h
    exact .inl hi
  | hold =>
    obtain ⟨-, rfl⟩ := enterGate_hold h
    rcases hi with held | released
    · rcases List.mem_append.mp held with held | same
      · exact .inl (.inl held)
      · exact .inr (List.mem_singleton.mp same)
    · exact .inl (.inr released)

theorem knows_withdraw {r : Bool} (hi : (a.withGate (a.usage.gate.withdraw j r).2).Knows i) :
    i ≠ j ∧ a.Knows i := by
  rcases hi with held | released
  · obtain ⟨hne, held⟩ := Gate.mem_held_withdraw.mp held
    exact ⟨hne, .inl held⟩
  · obtain ⟨hne, released⟩ := Gate.mem_released_withdraw.mp released
    exact ⟨hne, .inr released⟩

/-- A gate comes to know no job whose hold is refused. -/
theorem knows_unhold {decision : Gate.Decision} (h : a.enterGate j = (decision, a'))
    (hi : (a'.unhold j).Knows i) : i ≠ j ∧ a.Knows i := by
  obtain ⟨hne, hi⟩ := knows_withdraw hi
  exact ⟨hne, (knows_enterGate h hi).resolve_right hne⟩

theorem knows_start (hi : (a.start j b).Knows i) : a.Knows i :=
  hi.imp_right fun released => (Gate.mem_released_freeSlot.mp released).2

/-- A gate forgets the job that leaves. -/
theorem knows_leave (h : a.leave j b ran = (freed, a')) (hi : a'.Knows i) : i ≠ j ∧ a.Knows i := by
  obtain ⟨-, rfl⟩ := leave_eq h
  exact knows_withdraw hi

theorem knows_releaseNext {next : Option JobId} (h : a.releaseNext = (next, a')) (hi : a'.Knows i) :
    a.Knows i := by
  cases next with
  | none =>
    obtain ⟨-, rfl⟩ := releaseNext_none h
    exact hi
  | some n =>
    obtain ⟨rest, held, -, rfl⟩ := releaseNext_some h
    rcases hi with later | released
    · exact .inl (held ▸ List.mem_cons_of_mem n later)
    · rcases Gate.mem_insert.mp released with rfl | released
      · exact .inl (held ▸ List.mem_cons_self)
      · exact .inr released

theorem knows_unrelease (hi : (a.unrelease n).Knows i) : a.Knows i := by
  unfold unrelease Gate.unrelease at hi
  split at hi
  · rename_i hn
    rcases hi with held | released
    · rcases List.mem_cons.mp held with rfl | held
      · exact .inr (Std.ExtTreeSet.contains_iff_mem.mp hn)
      · exact .inl held
    · exact .inr (Gate.mem_erase.mp released).2
  · exact hi

end Account

/-! ### Where jobs are known -/

/-- The account that a job is bound to. -/
def JobStorage.account? (s : JobStorage) : Option Handle := s.binding.map JobBinding.account

namespace Ledger

variable {l l₁ l' : Ledger} {fairshare : Binary64} {j : JobId} {job : Job} {s s' : JobStorage}
  {a a' : Account} {k : AccountKey} {home : Handle}

/-- The placeholder of a user, with this fairshare, is there now and was not before. -/
def Creates (l : Ledger) (fairshare : Binary64) (userid : UserId) (l' : Ledger) : Prop :=
  l.account? ⟨userid, Account.placeholderBank⟩ = none ∧
    l'.account? ⟨userid, Account.placeholderBank⟩ =
      some (.placeholder userid fairshare)

/-- A job is known only to the gate of the account that it is bound to, and no gate of a
placeholder knows any. -/
structure Houses (l : Ledger) (j : JobId) (s : JobStorage) : Prop where
  own : ∀ (h : Handle) (a : Account), l.objects[h]? = some a → a.Knows j → s.account? = some h
  standIns : ∀ (h : Handle) (a : Account), l.objects[h]? = some a → a.isPlaceholder = true →
    ∀ i, ¬ a.Knows i

/-- A step of a job changes no account but those that the job is bound to before and after it, or
creates the placeholder of its user. It makes no other job known to a gate. -/
structure Confined (l : Ledger) (fairshare : Binary64) (job : Job) (s : JobStorage) (l' : Ledger)
    (s' : JobStorage) : Prop where
  objects : ∀ h : Handle, l'.objects[h]? = l.objects[h]? ∨ s.account? = some h ∨
    s'.account? = some h ∨
      h.key = ⟨job.userid, Account.placeholderBank⟩ ∧ l.Creates fairshare job.userid l'
  kept : ∀ k : AccountKey, l'.handle? k = l.handle? k ∨
    k = ⟨job.userid, Account.placeholderBank⟩ ∧ l.Creates fairshare job.userid l'
  defaults : l'.defaultBanks = l.defaultBanks ∨
    l'.defaultBanks = l.defaultBanks.insertIfNew job.userid Account.placeholderBank ∧
      (l.account? ⟨job.userid, Account.placeholderBank⟩ = none →
        l.Creates fairshare job.userid l')
  others : ∀ (h : Handle) (a' : Account), l'.objects[h]? = some a' → ∀ i, i ≠ job.id →
    a'.Knows i → ∃ a, l.objects[h]? = some a ∧ a.Knows i
  houses : l'.Houses job.id s'

/-- The account of a key is another one only where the job is bound to it, or where it is the
placeholder that is created. -/
theorem Confined.account? (h : l.Confined fairshare job s l' s') (k : AccountKey) :
    l'.account? k = l.account? k ∨ (s.account?.map Handle.key = some k) ∨
      s'.account?.map Handle.key = some k ∨
        k = ⟨job.userid, Account.placeholderBank⟩ ∧ l.Creates fairshare job.userid l' := by
  rcases h.kept k with kept | created
  · cases hk : l.handle? k with
    | none =>
      rw [hk] at kept
      exact .inl ((handle?_eq_none.mp kept).trans (handle?_eq_none.mp hk).symm)
    | some h₀ =>
      have key := key_of_handle? hk
      rw [hk] at kept
      rw [account?_of_handle? kept, account?_of_handle? hk]
      rcases h.objects h₀ with same | before | after | ⟨created, creates⟩
      · exact .inl same
      · exact .inr (.inl (by rw [before, Option.map_some, key]))
      · exact .inr (.inr (.inl (by rw [after, Option.map_some, key])))
      · exact .inr (.inr (.inr ⟨key.symm.trans created, creates⟩))
  · exact .inr (.inr (.inr created))

/-- A step that leaves the ledger as it is, and the job with its account, if it has one. -/
theorem Houses.confined_same (h : l.Houses job.id s)
    (same : ∀ home, s.account? = some home → s'.account? = some home) :
    l.Confined fairshare job s l s' where
  objects _ := .inl rfl
  kept _ := .inl rfl
  defaults := .inl rfl
  others _ a ha _ _ hi := ⟨a, ha, hi⟩
  houses := ⟨fun home a ha hj => same home (h.own home a ha hj), h.standIns⟩

/-- A step that puts an account back which the job is bound to before or after it. -/
theorem Houses.confined_put (h : l.Houses job.id s) (ha : l.objects[home]? = some a)
    (used : a.UsedAs a')
    (known : ∀ i, a'.Knows i → a.Knows i ∨ i = job.id ∧ a.isPlaceholder = false)
    (own : a'.Knows job.id → s'.account? = some home)
    (bound : s.account? = some home ∨ s'.account? = some home)
    (elsewhere : ∀ (h' : Handle) (a : Account), l.objects[h']? = some a → a.Knows job.id →
      home = h') :
    l.Confined fairshare job s (l.put a') s' := by
  obtain ⟨usage, rfl⟩ := used
  have same : ({ a with usage } : Account).handle = a.handle := rfl
  -- the account that was put back, or another one that is as before
  have after : ∀ {h' a₁}, (l.put { a with usage }).objects[h']? = some a₁ →
      home = h' ∧ a₁ = { a with usage } ∨ home ≠ h' ∧ l.objects[h']? = some a₁ := by
    intro h' a₁ ha₁
    rw [getElem?_objects_put_of_mem ha same] at ha₁
    split at ha₁
    · rename_i hk
      exact .inl ⟨hk, (Option.some.inj ha₁).symm⟩
    · rename_i hk
      exact .inr ⟨hk, ha₁⟩
  refine ⟨fun h' => ?_, fun _ => .inl rfl, .inl rfl, fun h' a₁ ha₁ i hi hk => ?_,
    fun h' a₁ ha₁ hj => ?_, fun h' a₁ ha₁ hp i hi => ?_⟩
  · by_cases hk : home = h'
    · subst hk
      exact .inr (bound.imp_right .inl)
    · exact .inl ((getElem?_objects_put_of_mem ha same h').trans (if_neg hk))
  · obtain ⟨rfl, rfl⟩ | ⟨-, same⟩ := after ha₁
    · exact ⟨a, ha, (known i hk).resolve_right fun h => hi h.1⟩
    · exact ⟨a₁, same, hk⟩
  · obtain ⟨rfl, rfl⟩ | ⟨hne, same⟩ := after ha₁
    · exact own hj
    · exact absurd (elsewhere h' a₁ same hj) hne
  · obtain ⟨rfl, rfl⟩ | ⟨-, same⟩ := after ha₁
    · rcases known i hi with hi | ⟨-, real⟩
      · exact h.standIns _ a ha hp i hi
      · exact absurd hp (by simp [Account.isPlaceholder] at real ⊢; exact real)
    · exact h.standIns h' a₁ same hp i hi

/-- An account that is created knows no job. -/
theorem Houses.create (h : l.Houses j s) (idle : ∀ i, ¬ a.Knows i) : (l.create a).Houses j s := by
  have after : ∀ {h' : Handle} {a₁ : Account}, (l.create a).objects[h']? = some a₁ →
      ∀ i, a₁.Knows i → l.objects[h']? = some a₁ := by
    intro h' a₁ ha₁ i hi
    rw [getElem?_objects_create] at ha₁
    split at ha₁
    · cases ha₁
      exact absurd hi (idle i)
    · exact ha₁
  exact ⟨fun h' a₁ ha₁ hj => h.own h' a₁ (after ha₁ j hj) hj,
    fun h' a₁ ha₁ hp i hi => h.standIns h' a₁ (after ha₁ i hi) hp i hi⟩

/-- The feed changes terms, and no gates. -/
theorem Houses.update (h : l.Houses j s) (u : AccountUpdate) : (l.update u).Houses j s := by
  unfold Ledger.update
  split
  · have created : (l.create (.ofUpdate u)).Houses j s :=
      h.create fun i hi => Account.not_knows_placeholder 0 .notANumber hi
    exact ⟨created.own, created.standIns⟩
  · rename_i a ha
    have there := object_of_account? ha
    have same : (a.refresh u.terms).handle = a.handle := rfl
    -- the account of the update is real from now on
    have after : ∀ {h' a₁}, (l.put (a.refresh u.terms)).objects[h']? = some a₁ →
        a.handle = h' ∧ a₁ = a.refresh u.terms ∨ l.objects[h']? = some a₁ := by
      intro h' a₁ ha₁
      rw [getElem?_objects_put_of_mem there same] at ha₁
      split at ha₁
      · rename_i hk
        exact .inl ⟨hk, (Option.some.inj ha₁).symm⟩
      · exact .inr ha₁
    refine ⟨fun h' a₁ ha₁ hj => ?_, fun h' a₁ ha₁ hp i hi => ?_⟩
    · obtain ⟨rfl, rfl⟩ | same := after ha₁
      · exact h.own _ a there hj
      · exact h.own h' a₁ same hj
    · obtain ⟨rfl, rfl⟩ | same := after ha₁
      · cases hp
      · exact h.standIns h' a₁ same hp i hi

theorem Houses.updates (h : l.Houses j s) (us : List AccountUpdate) :
    (us.foldl Ledger.update l).Houses j s := by
  induction us generalizing l with
  | nil => exact h
  | cons u us ih => exact ih (h.update u)

/-- A placeholder is created only where its user has none, and knows no job. -/
theorem Houses.ensurePlaceholder (h : l.Houses job.id s) (fairshare : Binary64) :
    l.Confined fairshare job s (l.ensurePlaceholder job.userid fairshare) s := by
  have created : l.account? ⟨job.userid, Account.placeholderBank⟩ = none →
      l.Creates fairshare job.userid (l.ensurePlaceholder job.userid fairshare) := fun hnone =>
    ⟨hnone, by rw [account?_ensurePlaceholder, if_pos ⟨rfl, hnone⟩]⟩
  cases hp : l.account? ⟨job.userid, Account.placeholderBank⟩ with
  | some p =>
    have still : l.ensurePlaceholder job.userid fairshare = { l with
        defaultBanks := l.defaultBanks.insertIfNew job.userid Account.placeholderBank } := by
      rw [Ledger.ensurePlaceholder, hp]
    rw [still] at created ⊢
    exact ⟨fun _ => .inl rfl, fun _ => .inl rfl, .inr ⟨rfl, created⟩,
      fun _ a ha _ _ hi => ⟨a, ha, hi⟩, h.own, h.standIns⟩
  | none =>
    have creates := created hp
    have idle := fun i => Account.not_knows_placeholder (i := i) job.userid fairshare
    have kept := h.create (a := .placeholder job.userid fairshare) idle
    have new : l.ensurePlaceholder job.userid fairshare =
        { l.create (.placeholder job.userid fairshare) with
          defaultBanks := l.defaultBanks.insertIfNew job.userid Account.placeholderBank } := by
      rw [Ledger.ensurePlaceholder, hp]
    rw [new] at creates ⊢
    refine ⟨fun h' => ?_, fun k => ?_, .inr ⟨rfl, fun _ => creates⟩, fun h' a ha i _ hi => ?_,
      kept.own, kept.standIns⟩
    · by_cases hk : l.fresh ⟨job.userid, Account.placeholderBank⟩ = h'
      · exact .inr (.inr (.inr ⟨hk ▸ rfl, creates⟩))
      · exact .inl ((getElem?_objects_create l (.placeholder ..) h').trans (if_neg hk))
    · by_cases hk : (⟨job.userid, Account.placeholderBank⟩ : AccountKey) = k
      · exact .inr ⟨hk.symm, creates⟩
      · exact .inl ((handle?_create l (.placeholder ..) k).trans (if_neg hk))
    · change (l.create (.placeholder job.userid fairshare)).objects[h']? = some a at ha
      rw [getElem?_objects_create] at ha
      split at ha
      · cases ha
        exact absurd hi (idle i)
      · exact ⟨a, ha, hi⟩

/-- A job that is bound to nothing makes sure of its placeholder first, which stays then. -/
theorem Confined.trans (h : l.Confined fairshare job s l₁ s)
    (h' : l₁.Confined fairshare job s l' s') (defaults : l'.defaultBanks = l₁.defaultBanks)
    (stays : ∀ (k : AccountKey) (p : Account), l₁.account? k = some p →
      p.isPlaceholder = true → l'.account? k = some p) : l.Confined fairshare job s l' s' := by
  have created : l.Creates fairshare job.userid l₁ → l.Creates fairshare job.userid l' := fun hc =>
    ⟨hc.1, stays _ _ hc.2 rfl⟩
  -- a placeholder that comes in the second part was not there before the first one
  have creates : l₁.Creates fairshare job.userid l' → l.Creates fairshare job.userid l' := by
    rintro ⟨hnone, there⟩
    rcases h.kept ⟨job.userid, Account.placeholderBank⟩ with same | ⟨-, hc⟩
    · exact ⟨handle?_eq_none.mp (same.symm.trans (handle?_eq_none.mpr hnone)), there⟩
    · exact created hc
  refine ⟨fun home => ?_, fun k => ?_, ?_, fun home a ha i hi hk => ?_, h'.houses⟩
  · rcases h'.objects home with same | before | after | ⟨key, hc⟩
    · rcases h.objects home with same' | before | before | ⟨key, hc⟩
      · exact .inl (same.trans same')
      · exact .inr (.inl before)
      · exact .inr (.inl before)
      · exact .inr (.inr (.inr ⟨key, created hc⟩))
    · exact .inr (.inl before)
    · exact .inr (.inr (.inl after))
    · exact .inr (.inr (.inr ⟨key, creates hc⟩))
  · rcases h'.kept k with same | ⟨key, hc⟩
    · exact (h.kept k).imp same.trans fun ⟨key, hc⟩ => ⟨key, created hc⟩
    · exact .inr ⟨key, creates hc⟩
  · rw [defaults]
    exact h.defaults.imp_right fun ⟨same, hc⟩ => ⟨same, created ∘ hc⟩
  · obtain ⟨a₁, ha₁, hi₁⟩ := h'.others home a ha i hi hk
    exact h.others home a₁ ha₁ i hi hi₁

end Ledger

/-! ### Steps -/

namespace Engine

variable {H : Type} {e : Engine H} {job : Job} {s s' : JobStorage} {l' : Ledger} {h' : H}
  {rs : List HostRequest} {b b' : JobBinding} {a a' : Account} {fairshare : Binary64}

theorem account?_of_boundAccount (hb : e.boundAccount s = some (b, a)) :
    s.account? = some b.account :=
  congrArg (Option.map JobBinding.account) (boundAccount_eq_some.mp hb).1

/-- A step that puts the account of its job back, which does not come to know another job. -/
theorem confined_put (h : e.ledger.Houses job.id s) (hb : e.boundAccount s = some (b, a))
    (used : a.UsedAs a')
    (known : ∀ i, a'.Knows i → a.Knows i ∨ i = job.id ∧ a.isPlaceholder = false)
    (own : a'.Knows job.id → s'.account? = some b.account) :
    e.ledger.Confined fairshare job s (e.ledger.put a') s' := by
  have bound := account?_of_boundAccount hb
  refine h.confined_put (boundAccount_eq_some.mp hb).2 used known own (.inl bound) ?_
  intro k a₁ ha₁ hj
  exact Option.some.inj (bound.symm.trans (h.own k a₁ ha₁ hj))

variable [Scheduler H]

theorem DependEffect.confined {outcome : Except HandlerError DependOutcome}
    (effect : DependEffect e job s outcome rs h' l' s') (h : e.ledger.Houses job.id s) :
    e.ledger.Confined fairshare job s l' s' := by
  cases effect with
  | unbound => exact h.confined_same fun _ => id
  | waved hb => exact h.confined_same fun _ => (account?_of_boundAccount hb).symm.trans
  | admitted hb real hg =>
    refine confined_put h hb (Account.usedAs_enterGate hg) (fun i hi => ?_) fun _ => rfl
    exact (Account.knows_enterGate hg hi).imp_right fun same => ⟨same, real⟩
  | held hb real hg =>
    refine confined_put h hb (Account.usedAs_enterGate hg) (fun i hi => ?_) fun _ =>
      account?_of_boundAccount hb
    exact (Account.knows_enterGate hg hi).imp_right fun same => ⟨same, real⟩
  | refused hb _ hg =>
    have known := fun i => Account.knows_unhold (i := i) hg
    refine confined_put h hb ((Account.usedAs_enterGate hg).trans (Account.usedAs_withGate ..))
      (fun i hi => .inl (known i hi).2) fun hj => absurd rfl (known _ hj).1

omit [Scheduler H] in
theorem RunEffect.confined (effect : RunEffect e job s l' s') (h : e.ledger.Houses job.id s) :
    e.ledger.Confined fairshare job s l' s' := by
  cases effect with
  | unbound => exact h.confined_same fun _ => id
  | started hb =>
    exact confined_put h hb ⟨_, rfl⟩ (fun i hi => .inl (Account.knows_start hi)) fun _ => rfl

theorem InactiveEffect.confined {outcome : Except HandlerError Unit}
    (effect : InactiveEffect e job s outcome rs h' l' s') (h : e.ledger.Houses job.id s) :
    e.ledger.Confined fairshare job s l' s' := by
  cases effect with
  | unbound => exact h.confined_same fun _ => id
  | left hb hl =>
    exact confined_put h hb (Account.usedAs_leave hl)
      (fun i hi => .inl (Account.knows_leave hl hi).2)
      fun hj => absurd rfl (Account.knows_leave hl hj).1
  | freed hb hl hr | released hb hl hr =>
    have known := fun i hi => Account.knows_leave (i := i) hl (Account.knows_releaseNext hr hi)
    exact confined_put h hb ((Account.usedAs_leave hl).trans (Account.usedAs_releaseNext hr))
      (fun i hi => .inl (known i hi).2) fun hj => absurd rfl (known _ hj).1
  | @kept b a a₁ a' next _ _ hb hl hr =>
    have known : ∀ i, (a'.unrelease next).Knows i → i ≠ job.id ∧ a.Knows i := fun i hi =>
      Account.knows_leave hl (Account.knows_releaseNext hr (Account.knows_unrelease hi))
    have used := (Account.usedAs_leave hl).trans (Account.usedAs_releaseNext hr)
    exact confined_put h hb (used.trans (Account.usedAs_withGate ..))
      (fun i hi => .inl (known i hi).2) fun hj => absurd rfl (known _ hj).1

/-- A job that left is known to no gate. -/
theorem InactiveEffect.forgets {outcome : Except HandlerError Unit}
    (effect : InactiveEffect e job s outcome rs h' l' s') (h : e.ledger.Houses job.id s)
    (home : Handle) (a : Account) (ha : l'.objects[home]? = some a) : ¬ a.Knows job.id := by
  intro hj
  have confined : e.ledger.Confined .notANumber job s l' s' := effect.confined h
  have bound := confined.houses.own home a ha hj
  cases effect with
  | left | freed | released | kept => cases bound
  | unbound hb =>
    obtain ⟨b, hs, rfl⟩ := Option.map_eq_some_iff.mp bound
    rw [boundAccount_eq_some.mpr ⟨hs, ha⟩] at hb
    cases hb

theorem PriorityEffect.confined {outcome : Except HandlerError PriorityOutcome}
    (effect : PriorityEffect e job s outcome rs h' l' s') (h : e.ledger.Houses job.id s) :
    e.ledger.Confined fairshare job s l' s' := by
  -- a job that is bound to a placeholder is known nowhere
  have unknown : ∀ {b p}, e.boundAccount s = some (b, p) → p.isPlaceholder = true →
      ∀ (h : Handle) (a : Account), e.ledger.objects[h]? = some a → ¬ a.Knows job.id := by
    intro b p hb hp h' a ha hj
    have home := (account?_of_boundAccount hb).symm.trans (h.own h' a ha hj)
    have there := (boundAccount_eq_some.mp hb).2
    rw [Option.some.inj home, ha] at there
    cases there
    exact h.standIns _ _ ha hp job.id hj
  cases effect with
  | unbound | prioritized | stayed => exact h.confined_same fun _ => id
  | @refused b p real a' _ _ hb hp hf hg =>
    have hfound := Ledger.object_of_account? (Ledger.account?_of_lookup (.inl hf)).1
    have absent := unknown hb hp _ real hfound
    rw [put_unhold hfound (fun held => absent (.inl held))
      (fun released => absent (.inr released)) hg]
    exact h.confined_same fun _ => id
  | @rebound b p real a' decision factor _ _ _ _ hb hp hf hg =>
    have hfound := Ledger.object_of_account? (Ledger.account?_of_lookup (.inl hf)).1
    have found := Ledger.isPlaceholder_of_found hf
    have used := Account.usedAs_enterGate hg
    have home : (reboundStorage s (Engine.rebound b (a'.countActive.withQueueFactor factor) factor
        decision) decision).account? = some real.handle := by
      rw [JobStorage.account?, reboundStorage_binding, Option.map_some, rebound_account]
      obtain ⟨usage, rfl⟩ := used
      rfl
    refine h.confined_put hfound (used.trans ⟨_, rfl⟩) (fun i hi => ?_) (fun _ => home) (.inr home)
      fun k a₁ ha₁ hj => absurd hj (unknown hb hp k a₁ ha₁)
    have entered : a'.Knows i := hi
    exact (Account.knows_enterGate hg entered).imp_right fun same => ⟨same, found⟩

omit [Scheduler H] in
theorem QueueUpdatedEffect.confined (effect : QueueUpdatedEffect e s l' s')
    (h : e.ledger.Houses job.id s) : e.ledger.Confined fairshare job s l' s' := by
  cases effect with
  | ignored => exact h.confined_same fun _ => id
  | settled hb =>
    refine confined_put h hb ⟨_, rfl⟩ (fun i hi => .inl hi) fun _ => rfl

theorem NewJobEffect.confined {h₀ : H} {l : Ledger} {byDefault : Bool}
    {outcome : Except HandlerError Unit}
    (effect : NewJobEffect h₀ job l b byDefault s outcome rs h' l' s') (h : l.Houses job.id s)
    (hs : s.account? = none) : l.Confined fairshare job s l' s' := by
  have nowhere : ∀ home, s.account? ≠ some home := by simp [hs]
  cases effect with
  | rejected | placed | detached => exact h.confined_same fun k hk => absurd hk (nowhere k)
  | enrolled ha =>
    refine h.confined_put ha ?_ (fun i hi => .inl ?_) (fun _ => rfl) (.inr rfl)
      fun k a ha hj => absurd (h.own k a ha hj) (nowhere k)
    · split
      · exact ⟨_, rfl⟩
      · exact ⟨_, rfl⟩
    · split at hi
      · exact hi
      · exact hi

/-- The announcement of a job leaves placeholders and default banks alone, once there is an
account to start from. -/
theorem NewJobEffect.standIn {h₀ : H} {l : Ledger} {byDefault : Bool}
    {outcome : Except HandlerError Unit}
    (effect : NewJobEffect h₀ job l b byDefault s outcome rs h' l' s') :
    l'.defaultBanks = l.defaultBanks ∧ ∀ (k : AccountKey) (p : Account), l.account? k = some p →
      p.isPlaceholder = true → l'.account? k = some p := by
  cases effect with
  | rejected | placed | detached => exact ⟨rfl, fun _ _ hp _ => hp⟩
  | @enrolled a factor _ _ _ ha real =>
    refine ⟨rfl, fun k p hp placeholder => ?_⟩
    rw [Ledger.account?_put, if_neg, hp]
    intro hk
    have home : l.handle? k = some a.handle := by
      rw [hk]
      split <;> rfl
    rw [Ledger.account?_of_handle? home, l.own _ a ha, ha] at hp
    cases hp
    simp [real] at placeholder

theorem newJob_confined (h : e.ledger.Houses job.id s) (hs : s.binding = none) :
    e.ledger.Confined e.config.placeholderFairshare job s (e.newJob job s).engine.ledger
      (e.newJob job s).storage := by
  have unbound : s.account? = none := by rw [JobStorage.account?, hs]; rfl
  obtain ⟨rs, effect⟩ := e.newJob_effect job s
  obtain ⟨a, -, start⟩ | ⟨a, -, start⟩ | ⟨-, start⟩ := e.startBinding_cases job hs
  · rw [start] at effect
    exact effect.confined h unbound
  · rw [start] at effect
    exact effect.confined h unbound
  · rw [start] at effect
    have placeholder := h.ensurePlaceholder e.config.placeholderFairshare
    obtain ⟨defaults, stays⟩ := effect.standIn
    exact placeholder.trans (effect.confined placeholder.houses unbound) defaults stays

/-- A step of a job is confined to the accounts of the job. -/
theorem stepOf_confined (h : e.ledger.Houses job.id s) (topic : Topic) (args : Json)
    (new : topic = .new → s.binding = none) :
    e.ledger.Confined e.config.placeholderFairshare job s
      (e.stepOf topic args job s).engine.ledger (e.stepOf topic args job s).storage := by
  cases topic with
  | validate =>
    change e.ledger.Confined _ job s (e.validate job s).engine.ledger (e.validate job s).storage
    rw [e.validate_storage job s]
    rcases e.validate_ledger job s with same | created
    · rw [same]
      exact h.confined_same fun _ => id
    · rw [created]
      exact h.ensurePlaceholder _
  | new => exact newJob_confined h (new rfl)
  | depend =>
    obtain ⟨rs, effect⟩ := e.depend_effect job s
    exact effect.confined h
  | priority | priorityGet =>
    obtain ⟨rs, effect⟩ := e.priority_effect job s
    exact effect.confined h
  | run => exact (e.run_effect job s).confined h
  | inactive =>
    obtain ⟨rs, effect⟩ := e.inactive_effect job s
    exact effect.confined h
  | updateQueue =>
    obtain ⟨ledger, -, storage⟩ := e.updateQueue_effect job s (proposedQueue args)
    change e.ledger.Confined _ job s (e.updateQueue job s (proposedQueue args)).engine.ledger
      (e.updateQueue job s (proposedQueue args)).storage
    rw [ledger, storage]
    exact h.confined_same fun _ => id
  | queueUpdated => exact (e.queueUpdated_effect job s).confined h

end Engine

end JobAdmission

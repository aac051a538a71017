import JobAdmission.Proofs.AccountRows
import JobAdmission.Proofs.FailedCalls
import JobAdmission.Proofs.Turns

/-!
# Where accounts come from

This module proves of every engine that is reached where its accounts come from
(`Engine.Reached.sourced`). What a real account grants is what a row of the feed told of it that
was not refused. The share of a placeholder is the one of an allowed configuration. Default banks
have names, and every user with a real account has one. Calls keep this because they change the
usage of accounts only, and create nothing but placeholders.
-/

namespace JobAdmission

/-! ### Ledgers -/

namespace Ledger

variable {share : Binary64 → Prop} {l l' : Ledger} {u : AccountUpdate}

/-- A row of the feed stands for the account with this key and these terms. -/
def Told (k : AccountKey) (t : Terms) : Prop :=
  ∃ (r : AccountRecord) (u : AccountUpdate), r.toUpdate = .ok u ∧ u.key = k ∧ u.terms = t

/-- The accounts come from the feed, or are placeholders with such shares. -/
structure Sourced (share : Binary64 → Prop) (l : Ledger) : Prop where
  /-- What a real account grants was told by a row. -/
  told : ∀ (k : AccountKey) (a : Account), l.account? k = some a → a.isPlaceholder = false →
    Told k a.terms
  /-- A placeholder has such a share. -/
  shares : ∀ (k : AccountKey) (a : Account), l.account? k = some a → a.isPlaceholder = true →
    share a.terms.fairshare
  /-- Default banks have names. -/
  named : ∀ (userid : UserId) (bank : String), l.defaultBanks[userid]? = some bank → bank ≠ ""
  /-- Every user with a real account has a default bank. -/
  banked : l.Banked

theorem account?_empty (k : AccountKey) : empty.account? k = none := rfl

theorem sourced_empty : empty.Sourced share where
  told k _ ha := by cases (account?_empty k).symm.trans ha
  shares k _ ha := by cases (account?_empty k).symm.trans ha
  named userid _ hd := by
    have none : empty.defaultBanks[userid]? = none := Std.ExtTreeMap.getElem?_empty
    cases none.symm.trans hd
  banked k _ ha := by cases (account?_empty k).symm.trans ha

/-- A row that is applied tells of its account. -/
theorem Sourced.update (h : l.Sourced share) {r : AccountRecord} (hu : r.toUpdate = .ok u) :
    (l.update u).Sourced share where
  told k a ha real := by
    rw [account?_update] at ha
    split at ha
    · rename_i hk
      refine ⟨r, u, hu, hk, ?_⟩
      cases ha
      cases l.account? k with
      | none => rfl
      | some a => rfl
    · exact h.told k a ha real
  shares k a ha placeholder := by
    rw [account?_update] at ha
    split at ha
    · cases ha
      cases hbefore : l.account? k with
      | none => simp [hbefore, Account.ofUpdate, Account.isPlaceholder] at placeholder
      | some a => simp [hbefore, Account.refresh, Account.isPlaceholder] at placeholder
    · exact h.shares k a ha placeholder
  named userid bank hd := by
    rw [getElem?_defaultBanks_update] at hd
    split at hd
    · cases hd
      exact AccountRecord.named_of_toUpdate hu
    · exact h.named userid bank hd
  banked := h.banked.update u

theorem Sourced.apply (h : l.Sourced share) (kind : FeedKind) (rows : List Json) :
    (l.apply kind rows).2.Sourced share := by
  cases kind with
  | queues | projects => exact ⟨h.told, h.shares, h.named, h.banked⟩
  | accounts =>
    show ((accepted AccountRecord.readUpdate rows).foldl Ledger.update l).Sourced share
    have read : ∀ u ∈ accepted AccountRecord.readUpdate rows,
        ∃ r : AccountRecord, r.toUpdate = .ok u := by
      intro u hu
      obtain ⟨row, -, hrow⟩ := mem_accepted.mp hu
      exact AccountRecord.exists_of_readUpdate hrow
    generalize accepted AccountRecord.readUpdate rows = us at read
    induction us generalizing l with
    | nil => exact h
    | cons u us ih =>
      obtain ⟨r, hu⟩ := read u List.mem_cons_self
      exact ih (h.update hu) fun u' hu' => read u' (List.mem_cons_of_mem u hu')

theorem Sourced.ensurePlaceholder (h : l.Sourced share) (userid : UserId) {fairshare : Binary64}
    (hshare : share fairshare) : (l.ensurePlaceholder userid fairshare).Sourced share where
  told k a ha real := by
    rw [account?_ensurePlaceholder] at ha
    split at ha
    · cases ha
      cases real
    · exact h.told k a ha real
  shares k a ha placeholder := by
    rw [account?_ensurePlaceholder] at ha
    split at ha
    · cases ha
      exact hshare
    · exact h.shares k a ha placeholder
  named u bank hd := by
    rw [getElem?_defaultBanks_ensurePlaceholder] at hd
    split at hd
    · cases hd
      decide
    · exact h.named u bank hd
  banked := h.banked.of_growsTo (growsTo_ensurePlaceholder ..)

/-- A job that passes by an account leaves alone what it grants. -/
theorem Sourced.passedBy (h : l.Sourced share) {j : JobId}
    (passed : l.PassedBy j l') : l'.Sourced share := by
  have grows := passed.growsTo
  cases passed with
  | still => exact h
  | @put home a a' ha passed =>
    -- an account of the ledger after it grants what one of the ledger before granted
    have before : ∀ (k₁ : AccountKey) (a₁ : Account), (l.put a').account? k₁ = some a₁ →
        ∃ a₀ : Account, l.account? k₁ = some a₀ ∧ a₀.UsedAs a₁ := by
      intro k₁ a₁ ha₁
      rw [account?_put] at ha₁
      split at ha₁
      · rename_i hk
        cases ha₁
        obtain ⟨usage, rfl⟩ := passed.used
        have kept : l.handle? k₁ = some a.handle := hk
        rw [l.own home a ha] at kept
        exact ⟨a, (account?_of_handle? kept).trans ha, usage, rfl⟩
      · exact ⟨a₁, ha₁, .refl a₁⟩
    refine ⟨fun k₁ a₁ ha₁ real => ?_, fun k₁ a₁ ha₁ placeholder => ?_, h.named,
      h.banked.of_growsTo grows⟩
    · obtain ⟨a₀, ha₀, usage, rfl⟩ := before k₁ a₁ ha₁
      exact h.told k₁ a₀ ha₀ real
    · obtain ⟨a₀, ha₀, usage, rfl⟩ := before k₁ a₁ ha₁
      exact h.shares k₁ a₀ ha₀ placeholder

end Ledger

/-! ### Engines that are reached -/

namespace Engine

variable {H : Type} [Scheduler H] {e : Engine H} {allowed : Config → Prop}

/-- The share is the one that an allowed configuration gives placeholders. -/
def PlaceholderShare (allowed : Config → Prop) (fairshare : Binary64) : Prop :=
  ∃ config, allowed config ∧ config.placeholderFairshare = fairshare

/-- The accounts of an engine that is reached come from the feed, or are placeholders with the
share of an allowed configuration. -/
theorem Reached.sourced (h : e.Reached allowed) :
    e.ledger.Sourced (PlaceholderShare allowed) := by
  refine h.invariant Ledger.sourced_empty (fun l kind rows hl => hl.apply kind rows)
    fun e topic args job s ok sourced => ?_
  obtain ⟨l, rfl | rfl, passed⟩ := e.stepOf_ledger topic args job s
  · exact sourced.passedBy passed
  · exact (sourced.ensurePlaceholder job.userid ⟨e.config, ok, rfl⟩).passedBy passed

end Engine

end JobAdmission

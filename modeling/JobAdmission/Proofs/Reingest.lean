import JobAdmission.Proofs.CommaLists
import JobAdmission.Proofs.Provenance
import JobAdmission.Proofs.Wakeup

/-!
# Telling the feed what was shown

This module proves that a real account can be told back to the ledger as it is shown
(`Engine.Reached.reingest`): the row that is made of its snapshot and of its user's default bank
is accepted, and applying it changes nothing at all. The row writes each term in another form
than the ledger keeps it, so what is to be shown is that whatever the feed can grant is read back
from its own form: limits from their numbers, which are never zero where there is a limit, lists
from their items joined by commas, and a default project that was let through once is let
through again.
-/

namespace JobAdmission

/-! ### Limits -/

/-- A word of 32 bits stays what it is as a number that stops at 32 bits. -/
theorem RunLimit.stopped_word (n : UInt32) :
    UInt32.ofNat (min (Int64.ofInt n.toNat).toInt.toNat maxSlots) = n := by
  have small := n.toNat_lt
  rw [Int64.toInt_ofInt_of_le (by omega) (by omega), Int.toNat_natCast,
    Nat.min_eq_left (by simp only [maxSlots, UInt32.size]; omega), UInt32.ofNat_toNat]

theorem RunLimit.ofInt_pos {n : UInt32} (h : 0 < n.toNat) : 0 < Int64.ofInt n.toNat := by
  have small := n.toNat_lt
  rw [Int64.lt_iff_toInt_lt, Int64.toInt_ofInt_of_le (by omega) (by omega)]
  exact Int.natCast_pos.mpr h

/-- A limit on running jobs that the feed can grant is read back from its number. -/
theorem RunLimit.ofNumber?_toNumber {number : Int64} {limit : RunLimit}
    (h : ofNumber? number = some limit) : ofNumber? limit.toNumber = some limit := by
  cases limit with
  | unlimited => rfl
  | detached => rfl
  | capped slots =>
    have pos := ofInt_pos (cap_pos_of_ofNumber? h rfl)
    have bounded : ¬(Int64.ofInt slots.toNat = 0 ∨ Int64.ofInt slots.toNat = -1) := by
      rintro (h | h)
      · exact absurd (h ▸ pos) (by decide)
      · exact absurd (h ▸ pos) (by decide)
    have attached : Int64.ofInt slots.toNat ≠ -2 := fun h => absurd (h ▸ pos) (by decide)
    rw [toNumber, ofNumber?, if_neg bounded, if_neg attached, if_pos pos, stopped_word]

namespace AccountRecord

/-- A limit on active jobs that the feed can grant is read back from its number. -/
theorem activeLimit?_getD {number : Int64} {limit : Option UInt32}
    (h : activeLimit? number = some limit) :
    activeLimit? (Int64.ofInt (limit.getD 0).toNat) = some limit := by
  cases limit with
  | none => rfl
  | some n =>
    have positive : 0 < n.toNat := by
      unfold activeLimit? at h
      split at h
      · cases h
      · split at h
        · rename_i hpos
          cases h
          exact RunLimit.stopped_pos hpos
        · cases h
    have pos := RunLimit.ofInt_pos positive
    have bounded : Int64.ofInt n.toNat ≠ 0 := fun h => absurd (h ▸ pos) (by decide)
    rw [Option.getD_some, activeLimit?, if_neg bounded, if_pos pos, RunLimit.stopped_word]

/-- What becomes of a row that passes all checks. -/
theorem toUpdate_eq_ok {r : AccountRecord} {t : Terms} (bank : r.bank ≠ "")
    (finite : r.fairshare.isFinite = true) (grants : r.Grants t) :
    r.toUpdate = .ok ⟨⟨r.userid, r.bank⟩, r.bankByDefault, t⟩ := by
  have enabled : decide (r.active ≠ 0) = t.enabled := by
    rw [Bool.eq_iff_iff, decide_eq_true_eq, grants.enabled]
  have terms : t = ⟨r.fairshare, t.runLimit, t.activeLimit, Text.commaList r.queues,
      decide (r.active ≠ 0), Text.commaList r.projects, r.namedProject⟩ := by
    rw [enabled, ← grants.fairshare, ← grants.queues, ← grants.projects, ← grants.defaultProject]
  rw [toUpdate, if_neg bank, finite, grants.runLimit, grants.activeLimit]
  simp only [Bool.not_true, Bool.false_eq_true, if_false]
  rw [← terms, bankByDefault]

end AccountRecord

/-! ### Rows made of what is shown -/

/-- The row that tells the feed what is shown of a user's account, where the user has this default
bank. -/
def AccountSnapshot.toRecord (s : AccountSnapshot) (userid : UserId) (defaultBank : String) :
    AccountRecord where
  userid := userid
  bank := s.bankName
  defaultBank := defaultBank
  fairshare := s.fairshare
  maxRunningJobs := s.maxRunJobs
  maxActiveJobs := Int64.ofInt s.maxActiveJobs.toNat
  queues := ",".intercalate s.queues
  active := if s.active then 1 else 0
  projects := ",".intercalate s.projects
  defaultProject := s.defProject

/-- What the feed can grant is granted by the row that shows it. -/
theorem AccountRecord.Grants.snapshot {r : AccountRecord} {a : Account} (grants : r.Grants a.terms)
    (real : a.isPlaceholder = false) (userid : UserId) (bank : String) :
    (a.snapshot.toRecord userid bank).Grants a.terms where
  fairshare := rfl
  runLimit := by
    show RunLimit.ofNumber? (if a.isPlaceholder then _ else a.terms.runLimit.toNumber) = _
    rw [real]
    exact RunLimit.ofNumber?_toNumber grants.runLimit
  activeLimit := activeLimit?_getD grants.activeLimit
  queues := by
    show a.terms.queues = Text.commaList (",".intercalate a.terms.queues)
    rw [grants.queues, Text.commaList_commaList]
  enabled := by
    show a.terms.enabled = true ↔ (if a.terms.enabled then 1 else 0 : Int64) ≠ 0
    cases a.terms.enabled with
    | true => simp
    | false => simp
  projects := by
    show a.terms.projects = Text.commaList (",".intercalate a.terms.projects)
    rw [grants.projects, Text.commaList_commaList]
  defaultProject := by
    show a.terms.defaultProject = a.terms.defaultProject.filter _
    rw [grants.defaultProject, namedProject, Option.filter_filter]
    simp

/-! ### Ledgers -/

/-- An update that tells an account what it grants, and its user's default bank, changes nothing. -/
theorem Ledger.update_eq_self {l : Ledger} {u : AccountUpdate} {a : Account}
    (ha : l.account? u.key = some a) (real : a.isPlaceholder = false) (terms : a.terms = u.terms)
    (hd : l.defaultBanks[u.key.userid]? = some u.defaultBank) : l.update u = l := by
  have kind : a.kind = .real := by
    cases hk : a.kind with
    | real => rfl
    | placeholder => simp [Account.isPlaceholder, hk] at real
  have same : a.refresh u.terms = a := by rw [Account.refresh, ← terms, ← kind]
  have kept : l.put (a.refresh u.terms) = l := by rw [same, put_eq_self (object_of_account? ha)]
  have told : l.update u =
      { l with defaultBanks := l.defaultBanks.insert u.key.userid u.defaultBank } := by
    rw [update, ha]
    simp only [kept]
  have defaults : (l.update u).defaultBanks = l.defaultBanks := by
    apply Std.ExtTreeMap.ext_getElem?
    intro userid
    rw [getElem?_defaultBanks_update]
    split
    · rename_i hu
      rw [← hu, hd]
    · rfl
  rw [told] at defaults ⊢
  exact congrArg (fun defaultBanks => { l with defaultBanks }) defaults

namespace Engine

variable {H : Type} [Scheduler H] {e : Engine H} {allowed : Config → Prop} {k : AccountKey}
  {a : Account}

/-- The row that is made of a real account as it is shown, with its user's default bank, is
accepted, and applying it changes nothing. -/
theorem Reached.reingest (h : e.Reached allowed) (ha : e.ledger.account? k = some a)
    (real : a.isPlaceholder = false) :
    ∃ bank, e.ledger.defaultBanks[k.userid]? = some bank ∧
      ∃ u, (a.snapshot.toRecord k.userid bank).toUpdate = .ok u ∧ e.ledger.update u = e.ledger := by
  have sourced := h.sourced
  obtain ⟨bank, hd⟩ := sourced.banked k a ha
  obtain ⟨r, u, hu, hk, terms⟩ := sourced.told k a ha real
  obtain ⟨key, -, grants⟩ := AccountRecord.grants_of_toUpdate hu
  obtain ⟨hasName, finite⟩ := AccountRecord.checks_of_toUpdate hu
  rw [terms] at grants
  refine ⟨bank, hd, ⟨k, bank, a.terms⟩, ?_, Ledger.update_eq_self ha real rfl hd⟩
  have bankName : (a.snapshot.toRecord k.userid bank).bank = k.bank :=
    congrArg AccountKey.bank (Ledger.key_of_account? ha)
  have byDefault : (a.snapshot.toRecord k.userid bank).bankByDefault = bank :=
    if_neg (sourced.named _ _ hd)
  have nonempty : (a.snapshot.toRecord k.userid bank).bank ≠ "" := by
    rw [bankName, ← hk, key]
    exact hasName
  have share : (a.snapshot.toRecord k.userid bank).fairshare.isFinite = true := by
    show a.terms.fairshare.isFinite = true
    rw [grants.fairshare]
    exact finite
  have accepted := AccountRecord.toUpdate_eq_ok nonempty share
    (grants.snapshot real k.userid bank)
  rwa [bankName, byDefault] at accepted

/-! ### A sample -/

namespace Sample

/-- A row with a limit that exceeds 32 bits, a list with blanks and a repetition, no default bank
and no default project. -/
def loose : AccountRecord where
  userid := 1
  bank := "physics"
  defaultBank := ""
  fairshare := .ofRatio false 1 2
  maxRunningJobs := 5000000000
  maxActiveJobs := 3
  queues := " debug , ,batch,debug"
  active := 7
  projects := "p1"
  defaultProject := some "*"

/-- The feed tells of the account, and a job comes to it. -/
def enrolled : List (Turn Host) :=
  [.feed .accounts [loose.encode], .call .new .null (World.Sample.bankless 8) {}]

end Sample

/-- In the sample, the account is shown otherwise than it was told, and is kept as it is when it is
told as it is shown. -/
theorem sample_reingest :
    ∃ a, (Sample.built.takeAll Sample.enrolled).Reached (fun _ => True) ∧
      (Sample.built.takeAll Sample.enrolled).ledger.account? World.Sample.key = some a ∧
      a.isPlaceholder = false ∧
      (a.snapshot.maxRunJobs, a.snapshot.curActiveJobs, a.snapshot.queues, a.snapshot.defProject) =
        (4294967295, 1, ["debug", "batch"], none) ∧
      ∃ bank, (Sample.built.takeAll Sample.enrolled).ledger.defaultBanks[World.Sample.key.userid]? =
          some bank ∧
        ∃ u, (a.snapshot.toRecord World.Sample.key.userid bank).toUpdate = .ok u ∧
          (Sample.built.takeAll Sample.enrolled).ledger.update u =
            (Sample.built.takeAll Sample.enrolled).ledger := by
  have start : Sample.built.Reached fun _ => True := .built trivial ({} : Host) none
  have reached := start.takeAll Sample.enrolled
  have kept : ((Sample.built.takeAll Sample.enrolled).ledger.account? World.Sample.key).map
      (fun a => (a.isPlaceholder, a.snapshot.maxRunJobs, a.snapshot.curActiveJobs,
        a.snapshot.queues, a.snapshot.defProject)) =
      some (false, 4294967295, 1, ["debug", "batch"], none) := by decide +kernel
  obtain ⟨a, ha, shown⟩ := Option.map_eq_some_iff.mp kept
  obtain ⟨real, shown⟩ := Prod.mk.inj shown
  exact ⟨a, reached, ha, real, shown, reached.reingest ha real⟩

end Engine

end JobAdmission

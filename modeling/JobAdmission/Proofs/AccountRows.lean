import JobAdmission.Proofs.Locality
import JobAdmission.Proofs.World

/-!
# Batches of account rows

This module proves what a batch of account rows does to a ledger (`Ledger.apply_accounts`).
Every row is applied, or it is skipped and reported with its position. The last row of an
account gives the account its terms, and the last row of a user gives the user a default bank;
an account that was there stays the one that it is, with what its jobs take up, and everything
that no row tells of stays. So a skipped row leaves no trace, a batch that is applied again
changes nothing, and two batches in turn do what one does that holds the rows of both.
-/

namespace JobAdmission

/-! ### What rows tell -/

namespace AccountRecord

/-- The row grants these terms. -/
structure Grants (r : AccountRecord) (t : Terms) : Prop where
  fairshare : t.fairshare = r.fairshare
  runLimit : RunLimit.ofNumber? r.maxRunningJobs = some t.runLimit
  activeLimit : activeLimit? r.maxActiveJobs = some t.activeLimit
  queues : t.queues = Text.commaList r.queues
  enabled : t.enabled = true ↔ r.active ≠ 0
  projects : t.projects = Text.commaList r.projects
  defaultProject : t.defaultProject = r.namedProject

/-- The bank of those jobs of the row's user that name none. -/
def bankByDefault (r : AccountRecord) : String :=
  if r.defaultBank = "" then r.bank else r.defaultBank

variable {r : AccountRecord} {u : AccountUpdate}

/-- A row that stands for an update stands for one of its own account, with its own terms. -/
theorem grants_of_toUpdate (h : r.toUpdate = .ok u) :
    u.key = ⟨r.userid, r.bank⟩ ∧ u.defaultBank = r.bankByDefault ∧ r.Grants u.terms := by
  unfold toUpdate at h
  split at h
  · cases h
  split at h
  · cases h
  split at h
  · cases h
  · cases h
  · rename_i runLimit activeLimit hr ha
    cases h
    exact ⟨rfl, rfl, rfl, hr, ha, rfl, by simp, rfl, rfl⟩

/-- What a row is checked for. -/
theorem checks_of_toUpdate (h : r.toUpdate = .ok u) :
    r.bank ≠ "" ∧ r.fairshare.isFinite = true := by
  unfold toUpdate at h
  split at h
  · cases h
  · rename_i bank
    split at h
    · cases h
    · rename_i finite
      exact ⟨bank, by simpa using finite⟩

theorem named_of_toUpdate (h : r.toUpdate = .ok u) : u.defaultBank ≠ "" := by
  rw [(grants_of_toUpdate h).2.1, bankByDefault]
  split
  · exact (checks_of_toUpdate h).1
  · assumption

/-- An update that is accepted is the one that a row stands for. -/
theorem exists_of_readUpdate {v : Json} (h : readUpdate v = .ok u) :
    ∃ r : AccountRecord, r.toUpdate = .ok u := by
  unfold readUpdate at h
  split at h
  · cases h
  · exact ⟨_, h⟩

/-- The last of these rows that tells of something is this record. -/
def LastOf (rows : List Json) (about : AccountUpdate → Prop) (r : AccountRecord) : Prop :=
  ∃ before row after, rows = before ++ row :: after ∧ decode row = .ok r ∧
    (∃ u, r.toUpdate = .ok u ∧ about u) ∧
    ∀ row' ∈ after, ∀ u, readUpdate row' = .ok u → ¬ about u

/-- Some of these rows tells of something. -/
def SomeOf (rows : List Json) (about : AccountUpdate → Prop) : Prop :=
  ∃ row ∈ rows, ∃ u, readUpdate row = .ok u ∧ about u

end AccountRecord

/-! ### Reports -/

section

variable {α : Type} {read : Json → Except RecordError α} {rows rows' : List Json} {n : Nat}
  {err : FeedError} {x : α}

/-- The position of the row that is refused. -/
def FeedError.position : FeedError → Nat
  | .record index _ => index
  | _ => 0

theorem accepted_cons_ok {row : Json} (h : read row = .ok x) :
    accepted read (row :: rows) = x :: accepted read rows :=
  List.filterMap_cons_some (by rw [h]; rfl)

theorem accepted_cons_error {row : Json} {e : RecordError} (h : read row = .error e) :
    accepted read (row :: rows) = accepted read rows :=
  List.filterMap_cons_none (by rw [h]; rfl)

theorem accepted_append :
    accepted read (rows ++ rows') = accepted read rows ++ accepted read rows' :=
  List.filterMap_append

theorem mem_accepted : x ∈ accepted read rows ↔ ∃ row ∈ rows, read row = .ok x := by
  rw [accepted, List.mem_filterMap]
  constructor
  · rintro ⟨row, hrow, h⟩
    cases hr : read row with
    | error e => simp [hr, Except.toOption] at h
    | ok y => exact ⟨row, hrow, by simpa [hr, Except.toOption] using h⟩
  · rintro ⟨row, hrow, h⟩
    exact ⟨row, hrow, by rw [h]; rfl⟩

/-- Only the rows that are accepted are of account. -/
theorem accepted_filter_isSome :
    accepted read (rows.filter fun row => (read row).toOption.isSome) = accepted read rows := by
  induction rows with
  | nil => rfl
  | cons row rows ih =>
    cases hr : read row with
    | error e =>
      rw [accepted_cons_error hr, List.filter_cons_of_neg (by simp [hr, Except.toOption]), ih]
    | ok x =>
      rw [accepted_cons_ok hr, List.filter_cons_of_pos (by simp [hr, Except.toOption]),
        accepted_cons_ok hr, ih]

theorem length_accepted_add_refused (read : Json → Except RecordError α) (n : Nat)
    (rows : List Json) :
    (accepted read rows).length + (refused read n rows).length = rows.length := by
  induction rows generalizing n with
  | nil => rfl
  | cons row rows ih =>
    have ih := ih (n + 1)
    cases hr : read row with
    | error e =>
      simp only [accepted_cons_error hr, refused, hr, List.length_cons]
      omega
    | ok x =>
      simp only [accepted_cons_ok hr, refused, hr, List.length_cons]
      omega

/-- The refusals are those of the rows that are refused, at their positions. -/
theorem mem_refused : err ∈ refused read n rows ↔
    ∃ i row reason, rows[i]? = some row ∧ read row = .error reason ∧
      err = .record (n + i) reason := by
  induction rows generalizing n with
  | nil => simp [refused]
  | cons row rows ih =>
    -- the first row is at the first position, and the others are one position further
    have first : (∃ i row' reason, (row :: rows)[i]? = some row' ∧ read row' = .error reason ∧
        err = .record (n + i) reason) ↔
        (∃ reason, read row = .error reason ∧ err = .record n reason) ∨
          ∃ i row' reason, rows[i]? = some row' ∧ read row' = .error reason ∧
            err = .record (n + 1 + i) reason := by
      constructor
      · rintro ⟨i, row', reason, hrow, hr, he⟩
        cases i with
        | zero =>
          cases hrow
          exact .inl ⟨reason, hr, he⟩
        | succ i =>
          exact .inr ⟨i, row', reason, by simpa using hrow, hr, by rw [he]; congr 1; omega⟩
      · rintro (⟨reason, hr, he⟩ | ⟨i, row', reason, hrow, hr, he⟩)
        · exact ⟨0, row, reason, rfl, hr, he⟩
        · exact ⟨i + 1, row', reason, by simpa using hrow, hr, by rw [he]; congr 1; omega⟩
    rw [first, ← ih]
    cases hr : read row with
    | error e => simp [refused, hr]
    | ok x => simp [refused, hr]

/-- The refusals come in the order of the rows. -/
theorem pairwise_refused (read : Json → Except RecordError α) (n : Nat) (rows : List Json) :
    (refused read n rows).Pairwise fun err err' => err.position < err'.position := by
  induction rows generalizing n with
  | nil => exact .nil
  | cons row rows ih =>
    cases hr : read row with
    | error e =>
      simp only [refused, hr]
      refine .cons (fun err' he => ?_) (ih (n + 1))
      obtain ⟨i, _, reason, -, -, rfl⟩ := mem_refused.mp he
      simp only [FeedError.position]
      omega
    | ok x =>
      simp only [refused, hr]
      exact ih (n + 1)

end

/-! ### Ledgers -/

namespace Ledger

variable {l : Ledger} {rows rows' : List Json} {k : AccountKey} {userid : UserId}
  {us : List AccountUpdate} {r : AccountRecord}

/-- Updates leave a user with the default bank of the user's last one. -/
theorem getElem?_defaultBanks_updates (l : Ledger) (us : List AccountUpdate) (userid : UserId) :
    (us.foldl update l).defaultBanks[userid]? =
      match (us.filter fun u => u.key.userid = userid).getLast? with
      | none => l.defaultBanks[userid]?
      | some u => some u.defaultBank := by
  induction us generalizing l with
  | nil => rfl
  | cons u us ih =>
    rw [List.foldl_cons, ih, getElem?_defaultBanks_update]
    by_cases hu : u.key.userid = userid
    · rw [if_pos hu, List.filter_cons_of_pos (by simpa using hu), List.getLast?_cons]
      cases (us.filter fun u => u.key.userid = userid).getLast? with
      | none => rfl
      | some u' => rfl
    · rw [if_neg hu, List.filter_cons_of_neg (by simpa using hu)]

theorem queues_updates (l : Ledger) (us : List AccountUpdate) :
    (us.foldl update l).queues = l.queues := by
  induction us generalizing l with
  | nil => rfl
  | cons u us ih => exact (ih (l.update u)).trans (queues_update l u)

theorem projects_updates (l : Ledger) (us : List AccountUpdate) :
    (us.foldl update l).projects = l.projects := by
  induction us generalizing l with
  | nil => rfl
  | cons u us ih => exact (ih (l.update u)).trans (projects_update l u)

/-- Updates leave the account of a key the one that it is. -/
theorem handle?_updates_of_some {h : Handle} (us : List AccountUpdate)
    (hk : l.handle? k = some h) : (us.foldl update l).handle? k = some h := by
  induction us generalizing l with
  | nil => exact hk
  | cons u us ih => exact ih (handle?_update_of_some u hk)

/-- Updates leave alone all accounts that are not kept under their keys. -/
theorem getElem?_objects_updates {h : Handle}
    (hk : (us.foldl update l).handle? h.key ≠ some h) :
    (us.foldl update l).objects[h]? = l.objects[h]? := by
  induction us generalizing l with
  | nil => rfl
  | cons u us ih =>
    exact (ih hk).trans (getElem?_objects_update fun kept => hk (handle?_updates_of_some us kept))

/-- Updates that were made once already change nothing. -/
theorem updates_updates (l : Ledger) (us : List AccountUpdate) :
    us.foldl update (us.foldl update l) = us.foldl update l := by
  refine (eq_of_accounts (fun k => ?_) (fun h hk => (getElem?_objects_updates hk).symm) ?_
    (queues_updates ..).symm (projects_updates ..).symm).symm
  · simp only [account?_updates]
    cases ((us.filter fun u => u.key = k).map (·.terms)).getLast? with
    | none => rfl
    | some terms => exact congrArg some (Account.told_told ..).symm
  · apply Std.ExtTreeMap.ext_getElem?
    intro userid
    simp only [getElem?_defaultBanks_updates]
    cases (us.filter fun u => u.key.userid = userid).getLast? with
    | none => rfl
    | some u => rfl

/-- The last row that tells of something gives the last update about it. -/
theorem getLast?_of_lastOf {about : AccountUpdate → Prop} [DecidablePred about]
    (h : AccountRecord.LastOf rows about r) :
    ∃ u, r.toUpdate = .ok u ∧
      ((accepted AccountRecord.readUpdate rows).filter about).getLast? = some u := by
  obtain ⟨before, row, after, rfl, hr, ⟨u, hu, ha⟩, last⟩ := h
  have read : AccountRecord.readUpdate row = .ok u := by
    simp [AccountRecord.readUpdate, hr, hu]
  have rest : (accepted AccountRecord.readUpdate after).filter about = [] := by
    rw [List.filter_eq_nil_iff]
    intro u' hu'
    obtain ⟨row', hrow', hread⟩ := mem_accepted.mp hu'
    simpa using last row' hrow' u' hread
  refine ⟨u, hu, ?_⟩
  rw [accepted_append, accepted_cons_ok read, List.filter_append,
    List.filter_cons_of_pos (by simpa using ha), rest]
  simp

theorem filter_eq_nil_of_not_someOf {about : AccountUpdate → Prop} [DecidablePred about]
    (h : ¬ AccountRecord.SomeOf rows about) :
    (accepted AccountRecord.readUpdate rows).filter about = [] := by
  rw [List.filter_eq_nil_iff]
  intro u hu
  obtain ⟨row, hrow, hread⟩ := mem_accepted.mp hu
  exact fun ha => h ⟨row, hrow, u, hread, by simpa using ha⟩

/-- What is told of, is told of by a last row. -/
theorem exists_lastOf {about : AccountUpdate → Prop} (h : AccountRecord.SomeOf rows about) :
    ∃ r, AccountRecord.LastOf rows about r := by
  induction rows with
  | nil =>
    obtain ⟨_, hrow, -⟩ := h
    cases hrow
  | cons row rows ih =>
    by_cases later : AccountRecord.SomeOf rows about
    · obtain ⟨r, before, row', after, rfl, rest⟩ := ih later
      exact ⟨r, row :: before, row', after, rfl, rest⟩
    · obtain ⟨row', hrow', u, hread, ha⟩ := h
      obtain rfl : row' = row := by
        rcases List.mem_cons.mp hrow' with same | mem
        · exact same
        · exact absurd ⟨row', mem, u, hread, ha⟩ later
      unfold AccountRecord.readUpdate at hread
      split at hread
      · cases hread
      · rename_i r hr
        exact ⟨r, [], row', rows, rfl, hr, ⟨u, hread, ha⟩, fun row₁ h₁ u₁ hu₁ ha₁ =>
          later ⟨row₁, h₁, u₁, hu₁, ha₁⟩⟩

/-! ### Batches -/

/-- What a batch of account rows makes of a ledger, and what is reported on it. -/
structure AppliesRows (l : Ledger) (rows : List Json) (report : FeedReport) (l' : Ledger) :
    Prop where
  /-- Every row is applied or skipped. -/
  counted : report.applied + report.skipped.length = rows.length
  /-- The rows that are skipped are those that are malformed or stand for no update. -/
  skipped : ∀ err, err ∈ report.skipped ↔
    ∃ i row reason, rows[i]? = some row ∧ AccountRecord.readUpdate row = .error reason ∧
      err = .record i reason
  /-- They are reported in their order. -/
  ascending : report.skipped.Pairwise fun err err' => err.position < err'.position
  /-- Whatever a row tells of, there is a last row that does. -/
  last : ∀ about, AccountRecord.SomeOf rows about → ∃ r, AccountRecord.LastOf rows about r
  /-- An account is real under the terms of its last row, and was used as before. -/
  accounts : ∀ k r, AccountRecord.LastOf rows (·.key = k) r →
    ∃ a', l'.account? k = some a' ∧ a'.key = k ∧ a'.kind = .real ∧ r.Grants a'.terms ∧
      a'.usage = ((l.account? k).map Account.usage).getD {}
  /-- The account of a key stays the one that it is, so whoever holds it sees the change. -/
  kept : ∀ k h, l.handle? k = some h → l'.handle? k = some h
  /-- An account of a new key is a new one. -/
  new : ∀ k h, l.handle? k = none → l'.handle? k = some h → h ∉ l.objects
  /-- The accounts that are kept under no key stay as they are. -/
  displaced : ∀ h, l'.handle? h.key ≠ some h → l'.objects[h]? = l.objects[h]?
  /-- The default bank of a user is the one of the user's last row. -/
  defaults : ∀ userid r, AccountRecord.LastOf rows (·.key.userid = userid) r →
    l'.defaultBanks[userid]? = some r.bankByDefault
  /-- The other accounts stay as they are. -/
  otherAccounts : ∀ k, ¬ AccountRecord.SomeOf rows (·.key = k) →
    l'.account? k = l.account? k
  /-- The other default banks stay as they are. -/
  otherDefaults : ∀ userid, ¬ AccountRecord.SomeOf rows (·.key.userid = userid) →
    l'.defaultBanks[userid]? = l.defaultBanks[userid]?
  /-- The queues stay as they are. -/
  queues : l'.queues = l.queues
  /-- The known projects stay as they are. -/
  projects : l'.projects = l.projects

/-- The last row of an account decides on its terms, and its usage stays. -/
theorem account_of_lastOf (h : AccountRecord.LastOf rows (·.key = k) r) :
    ∃ a', (l.applyAccounts rows).account? k = some a' ∧ a'.key = k ∧ a'.kind = .real ∧
      r.Grants a'.terms ∧ a'.usage = ((l.account? k).map Account.usage).getD {} := by
  obtain ⟨u, hu, hlast⟩ := getLast?_of_lastOf h
  have grants := (AccountRecord.grants_of_toUpdate hu).2.2
  have told : (l.applyAccounts rows).account? k = some (.told k (l.account? k) u.terms) := by
    rw [applyAccounts, account?_updates, List.getLast?_map, hlast]
    rfl
  refine ⟨_, told, key_of_account? told, ?_⟩
  cases l.account? k with
  | none => exact ⟨rfl, grants, rfl⟩
  | some a => exact ⟨rfl, grants, rfl⟩

/-- Rows that create an account for a key create a new one. -/
theorem new_of_handle? {h : Handle} (new : l.handle? k = none)
    (hk : (l.applyAccounts rows).handle? k = some h) : h ∉ l.objects := by
  have created := key_of_handle? hk
  rw [l.numbered, created]
  rintro ⟨n, hn, -⟩
  simp [handle?, hn] at new

theorem appliesRows (l : Ledger) (rows : List Json) :
    l.AppliesRows rows (l.apply .accounts rows).1 (l.apply .accounts rows).2 where
  counted := length_accepted_add_refused _ 0 rows
  skipped err := by
    change err ∈ refused AccountRecord.readUpdate 0 rows ↔ _
    simp [mem_refused]
  ascending := pairwise_refused _ 0 rows
  last _ h := exists_lastOf h
  accounts _ _ h := account_of_lastOf h
  kept _ _ h := handle?_updates_of_some _ h
  new _ _ := new_of_handle?
  displaced _ := getElem?_objects_updates
  defaults userid r h := by
    obtain ⟨u, hu, hlast⟩ := getLast?_of_lastOf h
    change (l.applyAccounts rows).defaultBanks[userid]? = _
    rw [applyAccounts, getElem?_defaultBanks_updates, hlast,
      ← (AccountRecord.grants_of_toUpdate hu).2.1]
  otherAccounts k h := by
    change (l.applyAccounts rows).account? k = _
    rw [applyAccounts, account?_updates, filter_eq_nil_of_not_someOf h]
    rfl
  otherDefaults userid h := by
    change (l.applyAccounts rows).defaultBanks[userid]? = _
    rw [applyAccounts, getElem?_defaultBanks_updates, filter_eq_nil_of_not_someOf h]
    rfl
  queues := queues_updates l _
  projects := projects_updates l _

/-- A batch of account rows changes what its rows tell of and nothing else. Rows that are skipped
leave no trace, the same batch again changes nothing, and rows can be applied in several
batches. -/
theorem apply_accounts (l : Ledger) (rows rows' : List Json) :
    l.AppliesRows rows (l.apply .accounts rows).1 (l.apply .accounts rows).2 ∧
    (l.apply .accounts
      (rows.filter fun row => (AccountRecord.readUpdate row).toOption.isSome)).2 =
        (l.apply .accounts rows).2 ∧
    (l.apply .accounts rows).2.apply .accounts rows = l.apply .accounts rows ∧
    (l.apply .accounts (rows ++ rows')).2 =
      ((l.apply .accounts rows).2.apply .accounts rows').2 := by
  refine ⟨l.appliesRows rows, ?_, ?_, ?_⟩
  · change l.applyAccounts _ = l.applyAccounts rows
    rw [applyAccounts, accepted_filter_isSome, applyAccounts]
  · exact congrArg (Prod.mk (reportOn AccountRecord.readUpdate rows)) (l.updates_updates _)
  · change l.applyAccounts _ = (l.applyAccounts rows).applyAccounts rows'
    rw [applyAccounts, accepted_append, List.foldl_append, applyAccounts, applyAccounts]

/-! ### A sample -/

namespace Sample

/-- Five rows: two are refused, and two tell of the same account. -/
def batch : List Json :=
  [.null, World.Sample.recordIn "physics" 5, World.Sample.recordIn "physics" (-7),
   World.Sample.recordIn "physics" 1, World.Sample.recordIn "chemistry" 0]

/-- The last row of the account in the bank "physics". -/
def last : AccountRecord where
  userid := 1
  bank := "physics"
  defaultBank := "physics"
  fairshare := .ofRatio false 1 2
  maxRunningJobs := 0
  maxActiveJobs := 1
  queues := ""
  active := 1
  projects := ""
  defaultProject := none

/-- The ledger with two jobs at the account: one runs and one is held. -/
def ledger : Ledger := (World.Sample.start.afterAll World.Sample.events).engine.ledger

theorem lastOf : AccountRecord.LastOf batch (·.key = World.Sample.key) last := by
  refine ⟨batch.take 3, World.Sample.recordIn "physics" 1, batch.drop 4, rfl, ?_, ?_, ?_⟩
  · decide +kernel
  · have key : (last.toUpdate).toOption.any (·.key = World.Sample.key) = true := by decide +kernel
    obtain ⟨u, hu, hk⟩ := (Option.any_eq_true ..).mp key
    cases hr : last.toUpdate with
    | error e => simp [hr, Except.toOption] at hu
    | ok u' =>
      obtain rfl : u' = u := by simpa [hr, Except.toOption] using hu
      exact ⟨u', rfl, by simpa using hk⟩
  · have others : ∀ row ∈ batch.drop 4, (AccountRecord.readUpdate row).toOption.all
        (·.key ≠ World.Sample.key) = true := by decide +kernel
    intro row hrow u hu
    have key := others row hrow
    rw [hu] at key
    simpa [Except.toOption] using key

end Sample

theorem sample_apply_accounts :
    ∃ a', (Sample.ledger.apply .accounts Sample.batch).2.account? World.Sample.key = some a' ∧
      Sample.last.Grants a'.terms ∧ a'.usage.active = 2 ∧ a'.usage.running = 1 := by
  obtain ⟨a', ha', -, -, grants, usage⟩ :=
    (apply_accounts Sample.ledger Sample.batch []).1.accounts _ _ Sample.lastOf
  have before : (((Sample.ledger.account? World.Sample.key).map Account.usage).getD {}).active = 2 ∧
      (((Sample.ledger.account? World.Sample.key).map Account.usage).getD {}).running = 1 := by
    decide +kernel
  rw [← usage] at before
  exact ⟨a', ha', grants, before⟩

/-- The refused rows are reported at their positions. -/
example : (Sample.ledger.apply .accounts Sample.batch).1.applied = 3 ∧
    (Sample.ledger.apply .accounts Sample.batch).1.skipped.map FeedError.position = [0, 2] := by
  decide +kernel

end Ledger

end JobAdmission

import JobAdmission.Proofs.CommaLists
import JobAdmission.Proofs.Provenance
import JobAdmission.Proofs.WrittenForms
import Mathlib.Data.String.Basic

/-!
# What a query shows

This module proves that a query shows the accounts as they are, of every engine that is reached
with configurations that an engine can be built with (`Engine.Reached.faithful`). Users stand in
ascending order, and so do the banks of a user, by the bytes of their names. For a user and a
bank there is one entry if there is an account, with its counters and its held jobs, oldest
first, and none otherwise. Every share is finite, so the written form of the answer holds no
`null` in the place of a number and is read back as the answer.

The order comes from the keys of the ledger (`AccountKey`), of which the users are what is left
without repetitions; that every share is finite comes from the rows of the feed and from the
configurations (`Ledger.Sourced`).
-/

namespace JobAdmission

/-! ### Bytes -/

namespace Text

/-- The bytes of a text. -/
def bytes (s : String) : List UInt8 := s.toByteArray.data.toList

theorem bytes_eq (s : String) : bytes s = s.toList.flatMap String.utf8EncodeChar := by
  rw [bytes, ← String.ofList_toList (s := s), String.toByteArray_ofList, List.utf8Encode,
    List.data_toByteArray, String.toList_ofList]

/-- The bytes of a character come before those of a greater one, whatever follows. The digits of
base 64 decide, the first one first. -/
theorem encode_lt_encode {c d : Char} (h : c < d) (xs ys : List UInt8) :
    String.utf8EncodeChar c ++ xs < String.utf8EncodeChar d ++ ys := by
  have lt : c.val.toNat < d.val.toNat := h
  have bound : d.val.toNat < 0x110000 := by
    rcases d.valid with h | h
    · omega
    · omega
  unfold String.utf8EncodeChar
  generalize c.val.toNat = v at lt
  generalize d.val.toNat = w at lt bound
  have digits : ∀ n : ℕ, n / 4096 = n / 64 / 64 ∧ n / 262144 = n / 64 / 64 / 64 := fun n => by omega
  simp only [digits]
  split_ifs
  all_goals
    first
    | omega
    | simp only [List.cons_append, List.nil_append, List.cons_lt_cons_iff, UInt8.lt_iff_toNat_lt,
        ← UInt8.toNat_inj, UInt8.toNat_ofNat', Nat.reducePow]
      omega

/-- Texts are in the order of their bytes. -/
theorem bytes_lt_bytes {s t : String} (h : s < t) : bytes s < bytes t := by
  rw [String.lt_iff_toList_lt] at h
  rw [bytes_eq, bytes_eq]
  generalize s.toList = cs at h
  generalize t.toList = ds at h
  induction h with
  | @nil d ds =>
    cases hd : String.utf8EncodeChar d with
    | nil => exact absurd hd String.utf8EncodeChar_ne_nil
    | cons b bs =>
      rw [List.flatMap_nil, List.flatMap_cons, hd]
      exact List.nil_lt_cons b _
  | @cons c cs ds h ih =>
    rw [List.flatMap_cons, List.flatMap_cons]
    exact List.append_left_lt ih
  | rel h =>
    rw [List.flatMap_cons, List.flatMap_cons]
    exact encode_lt_encode h _ _

end Text

/-! ### Finite shares -/

theorem Binary64.isFinite_of_inUnitInterval {x : Binary64} (h : x.inUnitInterval = true) :
    x.isFinite = true := by
  unfold inUnitInterval datum at h
  split at h
  · rename_i hd
    split at hd
    · rename_i small
      exact decide_eq_true small
    · split at hd
      · cases hd
      · cases hd
  · cases h

/-- An engine can be built with the configuration. -/
def Config.Buildable (config : Config) : Prop :=
  ∃ ledger audit e, Engine.build config ledger audit = .ok e

theorem Config.Buildable.isFinite {config : Config} (h : config.Buildable) :
    config.placeholderFairshare.isFinite = true := by
  obtain ⟨ledger, audit, e, built⟩ := h
  unfold Engine.build validated at built
  split at built
  · cases built
  · rename_i valid
    split at valid
    · cases valid
    · rename_i inside
      exact Binary64.isFinite_of_inUnitInterval (by simpa using inside)

/-! ### Keys in order -/

theorem eq_singleton_of_nodup {α : Type} {l : List α} {x : α} (distinct : l.Nodup) (hx : x ∈ l)
    (only : ∀ y ∈ l, y = x) : l = [x] := by
  have same : ∀ y, y ∈ l ↔ y ∈ [x] := by
    intro y
    rw [List.mem_singleton]
    exact ⟨only y, fun h => h ▸ hx⟩
  exact List.perm_singleton.mp
    ((List.perm_ext_iff_of_nodup distinct (List.nodup_singleton x)).mpr same)

namespace AccountKey

variable {k k' : AccountKey}

theorem compare_eq_lt : compare k k' = .lt ↔
    k.userid < k'.userid ∨ k.userid = k'.userid ∧ k.bank < k'.bank := by
  show (compareOn userid k k').then (compareOn bank k k') = .lt ↔ _
  rw [Ordering.then_eq_lt]
  have banks : compare k.bank k'.bank = .lt ↔ k.bank < k'.bank := compareOfLessAndEq_eq_lt
  simp only [compareOn, Std.compare_eq_lt, Std.LawfulEqOrd.compare_eq_iff_eq, banks]

end AccountKey

namespace Ledger

variable {l : Ledger} {userid : UserId} {bank : String} {a : Account}

/-- The users are in ascending order. -/
theorem users_ascending (l : Ledger) : l.users.Pairwise (· < ·) := by
  have ascending : (l.serials.keys.map (·.userid)).Pairwise (· ≤ ·) := by
    rw [List.pairwise_map]
    refine Std.ExtTreeMap.ordered_keys.imp fun {k k'} h => ?_
    obtain lt | ⟨same, -⟩ := AccountKey.compare_eq_lt.mp h
    · exact UInt32.le_of_lt lt
    · exact same ▸ UInt32.le_refl _
  refine (pairwise_eraseDups ascending).imp fun h => ?_
  exact UInt32.lt_of_le_of_ne h.1 h.2

theorem mem_users : userid ∈ l.users ↔
    ∃ bank a, l.account? ⟨userid, bank⟩ = some a := by
  rw [users, List.mem_eraseDups, List.mem_map]
  constructor
  · rintro ⟨⟨u, bank⟩, hk, rfl⟩
    exact ⟨bank, mem_serials.mp (Std.ExtTreeMap.mem_keys.mp hk)⟩
  · rintro ⟨bank, there⟩
    exact ⟨⟨userid, bank⟩, Std.ExtTreeMap.mem_keys.mpr (mem_serials.mpr there), rfl⟩

/-- The entries are in the order of their keys. -/
theorem entries_ascending (l : Ledger) : l.entries.Pairwise fun e e' => compare e.1 e'.1 = .lt := by
  rw [entries, List.pairwise_filterMap]
  refine Std.ExtTreeMap.ordered_keys.imp fun {k k'} lt e he e' he' => ?_
  obtain ⟨a, -, rfl⟩ := Option.map_eq_some_iff.mp he
  obtain ⟨a', -, rfl⟩ := Option.map_eq_some_iff.mp he'
  exact lt

/-- What is kept under a key is all that stands with that key. -/
theorem filter_entries (l : Ledger) (k : AccountKey) :
    l.entries.filter (fun e => e.1 = k) = (l.account? k).toList.map fun a => (k, a) := by
  cases hk : l.account? k with
  | none =>
    refine List.filter_eq_nil_iff.mpr fun e he => ?_
    simp only [decide_eq_true_eq]
    rintro rfl
    cases hk.symm.trans (mem_entries.mp he)
  | some a =>
    have distinct : l.entries.Nodup := by
      refine l.entries_ascending.imp fun {e e'} lt => ?_
      rintro rfl
      cases Std.ReflCmp.compare_self.symm.trans lt
    refine eq_singleton_of_nodup (distinct.filter _) ?_ fun e he => ?_
    · rw [List.mem_filter, mem_entries]
      exact ⟨hk, by simp⟩
    · rw [List.mem_filter, mem_entries] at he
      obtain ⟨he, hkey⟩ := he
      obtain rfl : e.1 = k := by simpa using hkey
      cases hk.symm.trans he
      rfl

/-- The accounts of a user are in ascending order of banks. -/
theorem banks_ascending (l : Ledger) (userid : UserId) :
    ((l.accountsOf userid).map (·.key.bank)).Pairwise (· < ·) := by
  rw [accountsOf, List.map_map, List.pairwise_map, List.pairwise_filter]
  refine l.entries_ascending.imp_of_mem fun {e e'} he he' h => ?_
  simp only [decide_eq_true_eq, Function.comp_apply]
  intro hu hu'
  rw [key_of_account? (mem_entries.mp he), key_of_account? (mem_entries.mp he')]
  obtain lt | ⟨-, lt⟩ := AccountKey.compare_eq_lt.mp h
  · rw [hu, hu'] at lt
    exact absurd lt (UInt32.lt_irrefl userid)
  · exact lt

/-- Of a user's accounts the one with a bank is the one under the key of both. -/
theorem filter_accountsOf (l : Ledger) (userid : UserId) (bank : String) :
    (l.accountsOf userid).filter (fun a => a.key.bank = bank) =
      (l.account? ⟨userid, bank⟩).toList := by
  rw [accountsOf, List.filter_map, List.filter_filter]
  calc
    _ = (l.entries.filter fun e => e.1 = ⟨userid, bank⟩).map (·.2) := by
      refine congrArg (List.map Prod.snd) (List.filter_congr fun e he => ?_)
      simp only [Function.comp_apply]
      rw [key_of_account? (mem_entries.mp he), ← Bool.decide_and, decide_eq_decide, and_comm]
      exact (AccountKey.mk.injEq ..).symm.to_iff
    _ = (l.account? ⟨userid, bank⟩).toList := by
      rw [filter_entries, List.map_map]
      simp

/-- A user is listed if the user has an account. -/
theorem accountsOf_ne_nil (h : userid ∈ l.users) : l.accountsOf userid ≠ [] := by
  obtain ⟨bank, a, ha⟩ := mem_users.mp h
  have his : (⟨⟨userid, bank⟩, a⟩ : AccountKey × Account) ∈
      l.entries.filter (fun e => e.1.userid = userid) :=
    List.mem_filter.mpr ⟨mem_entries.mpr ha, decide_eq_true rfl⟩
  exact List.ne_nil_of_mem (List.mem_map_of_mem his)

theorem accounts_of_lookup (h : l.lookup userid (some bank) = .found a ∨
    l.lookup userid (some bank) = .placeholder a) :
    l.account? ⟨userid, bank⟩ = some a := by
  obtain ⟨b, hb, ha⟩ := exists_of_lookup h
  obtain rfl : bank = b := Option.some.inj hb
  exact ha

theorem accounts_of_notFound (h : l.lookup userid (some bank) = .notFound) :
    l.account? ⟨userid, bank⟩ = none := by
  cases ha : l.account? ⟨userid, bank⟩ with
  | none => rfl
  | some a =>
    rw [lookup_of_some rfl ha] at h
    split at h
    · cases h
    · cases h

/-! ### Held jobs -/

/-- The held jobs of an account; none if there is no such account. -/
def heldAt (l : Ledger) (k : AccountKey) : List JobId :=
  (l.account? k).elim [] (·.usage.gate.held)

theorem heldAt_ensurePlaceholder (l : Ledger) (userid : UserId) (fairshare : Binary64)
    (k : AccountKey) : (l.ensurePlaceholder userid fairshare).heldAt k = l.heldAt k := by
  rw [heldAt, account?_ensurePlaceholder]
  split
  · rename_i h
    rw [heldAt, h.2]
    rfl
  · rfl

theorem heldAt_update (l : Ledger) (u : AccountUpdate) (k : AccountKey) :
    (l.update u).heldAt k = l.heldAt k := by
  rw [heldAt, account?_update, heldAt]
  split
  · cases l.account? k with
    | none => rfl
    | some a => rfl
  · rfl

theorem heldAt_apply (l : Ledger) (kind : FeedKind) (rows : List Json) (k : AccountKey) :
    (l.apply kind rows).2.heldAt k = l.heldAt k := by
  cases kind with
  | queues | projects => rfl
  | accounts =>
    show (l.applyAccounts rows).heldAt k = l.heldAt k
    rw [applyAccounts]
    induction accepted AccountRecord.readUpdate rows generalizing l with
    | nil => rfl
    | cons u us ih => exact (ih (l.update u)).trans (heldAt_update l u k)

/-- Held jobs keep their order while a job passes, and only that job can come, as the last one. -/
theorem PassedBy.heldAt {j : JobId} {l' : Ledger} (passed : l.PassedBy j l')
    (k : AccountKey) : (l'.heldAt k).Sublist (l.heldAt k) ∨ l'.heldAt k = l.heldAt k ++ [j] := by
  cases passed with
  | still => exact .inl (.refl _)
  | @put home a a' ha passed =>
    rw [Ledger.heldAt, account?_put]
    split
    · rename_i hk
      obtain ⟨usage, rfl⟩ := passed.used
      have kept : l.handle? k = some a.handle := hk
      rw [l.own home a ha] at kept
      rw [Ledger.heldAt, account?_of_handle? kept, ha]
      exact passed.queue
    · exact .inl (.refl _)

end Ledger

/-- Held jobs keep their order along a turn, and only the job of a call can come, as the last
one. -/
theorem Engine.heldAt_take {H : Type} [Scheduler H] (e : Engine H)
    (t : Turn H) (k : AccountKey) :
    ((e.take t).ledger.heldAt k).Sublist (e.ledger.heldAt k) ∨
      ∃ topic args job s, t = .call topic args job s ∧
        (e.take t).ledger.heldAt k = e.ledger.heldAt k ++ [job.id] := by
  cases t with
  | feed kind rows =>
    left
    show ((e.ledger.apply kind rows).2.heldAt k).Sublist (e.ledger.heldAt k)
    rw [Ledger.heldAt_apply]
  | reprioritize | scheduler => exact .inl (.refl _)
  | call topic args job s =>
    have step : ((e.stepOf topic args job s).engine.ledger.heldAt k).Sublist (e.ledger.heldAt k) ∨
        (e.stepOf topic args job s).engine.ledger.heldAt k = e.ledger.heldAt k ++ [job.id] := by
      obtain ⟨l, rfl | rfl, passed⟩ := e.stepOf_ledger topic args job s
      · exact passed.heldAt k
      · have joined := passed.heldAt k
        rwa [Ledger.heldAt_ensurePlaceholder] at joined
    exact step.imp_right fun joined => ⟨topic, args, job, s, rfl, joined⟩

/-! ### Entries -/

/-- The entries for a user and a bank in what a query shows. -/
def entriesAt (users : List UserSnapshot) (userid : UserId) (bank : String) :
    List AccountSnapshot :=
  (users.filter fun u => u.userid = userid).flatMap fun u =>
    u.banks.filter fun s => s.bankName = bank

/-- The held jobs that a query shows for a user and a bank. -/
def heldShown (users : List UserSnapshot) (userid : UserId) (bank : String) : List JobId :=
  (entriesAt users userid bank).flatMap (·.heldJobs)

/-- A user is shown under the user's number, with the user's accounts. -/
theorem Ledger.entriesAt_snapshot (l : Ledger) (userid : UserId) (bank : String) :
    entriesAt l.snapshot userid bank =
      (l.account? ⟨userid, bank⟩).toList.map Account.snapshot := by
  rw [entriesAt, snapshot, List.filter_map]
  by_cases listed : userid ∈ l.users
  · have one : l.users.filter (fun u => u = userid) = [userid] := by
      refine eq_singleton_of_nodup ((nodup_eraseDups _).filter _) ?_ fun u hu => ?_
      · exact List.mem_filter.mpr ⟨listed, by simp⟩
      · simpa using (List.mem_filter.mp hu).2
    show ((l.users.filter fun u => u = userid).map _).flatMap _ = _
    rw [one, List.map_singleton, List.flatMap_singleton]
    show ((l.accountsOf userid).map Account.snapshot).filter _ = _
    rw [List.filter_map, ← filter_accountsOf]
    rfl
  · have none : l.users.filter (fun u => u = userid) = [] := by
      refine List.filter_eq_nil_iff.mpr fun u hu => ?_
      simp only [decide_eq_true_eq]
      rintro rfl
      exact listed hu
    show ((l.users.filter fun u => u = userid).map _).flatMap _ = _
    rw [none, List.map_nil, List.flatMap_nil]
    cases ha : l.account? ⟨userid, bank⟩ with
    | none => rfl
    | some a => exact absurd (mem_users.mpr ⟨bank, a, ha⟩) listed

theorem Ledger.heldShown_snapshot (l : Ledger) (userid : UserId) (bank : String) :
    heldShown l.snapshot userid bank = l.heldAt ⟨userid, bank⟩ := by
  rw [heldShown, entriesAt_snapshot, heldAt]
  cases l.account? ⟨userid, bank⟩ with
  | none => rfl
  | some a => exact List.append_nil _

/-! ### The query -/

/-- An entry shows an account as it is. -/
structure AccountSnapshot.Shows (s : AccountSnapshot) (a : Account) : Prop where
  /-- Under the name of its bank. -/
  bank : s.bankName = a.key.bank
  /-- With the share that it grants. -/
  fairshare : s.fairshare = a.terms.fairshare
  /-- With the number of its running jobs. -/
  running : s.curRunJobs = a.usage.running
  /-- With the number of its active jobs. -/
  active : s.curActiveJobs = a.usage.active
  /-- With its held jobs. -/
  held : s.heldJobs = a.usage.gate.held

namespace Engine

variable {H : Type} [Scheduler H]

/-- A query of the engine shows the accounts as they are. -/
structure Faithful (e : Engine H) : Prop where
  /-- Users are in ascending order. -/
  users : (e.query.map (·.userid)).Pairwise (· < ·)
  /-- The banks of a user are in ascending order of the bytes of their names. -/
  banks : ∀ u ∈ e.query, (u.banks.map fun s => Text.bytes s.bankName).Pairwise (· < ·)
  /-- No user is listed without an account. -/
  listed : ∀ u ∈ e.query, u.banks ≠ []
  /-- For a user and a bank for which an account is found there is one entry, which shows it. -/
  shown : ∀ userid bank a, (e.ledger.lookup userid (some bank) = .found a ∨
    e.ledger.lookup userid (some bank) = .placeholder a) →
      ∃ s, entriesAt e.query userid bank = [s] ∧ s.Shows a
  /-- For a user and a bank for which no account is found there is no entry. -/
  absent : ∀ userid bank, e.ledger.lookup userid (some bank) = .notFound →
    entriesAt e.query userid bank = []
  /-- Held jobs are shown oldest first: in whatever turn comes next they keep their order, and
  the job of a call can come, as the last one. -/
  oldestFirst : ∀ (t : Turn H) userid bank,
    (heldShown (e.take t).query userid bank).Sublist (heldShown e.query userid bank) ∨
      ∃ topic args job s, t = .call topic args job s ∧
        heldShown (e.take t).query userid bank = heldShown e.query userid bank ++ [job.id]
  /-- Every share is finite. -/
  finite : ∀ u ∈ e.query, ∀ s ∈ u.banks, s.fairshare.isFinite = true
  /-- The written answer is read back as the answer. -/
  readsBack : Decoder.list UserSnapshot.decode (queryResponse e.query) = .ok e.query

variable {e : Engine H}

/-- Every account has a finite share, as the feed tells only such and placeholders are given
only such. -/
theorem Reached.isFinite (h : e.Reached Config.Buildable) {k : AccountKey} {a : Account}
    (ha : e.ledger.account? k = some a) : a.terms.fairshare.isFinite = true := by
  cases real : a.isPlaceholder with
  | true =>
    obtain ⟨config, ok, same⟩ := h.sourced.shares k a ha real
    exact same ▸ ok.isFinite
  | false =>
    obtain ⟨r, u, hu, -, terms⟩ := h.sourced.told k a ha real
    rw [← terms, (AccountRecord.grants_of_toUpdate hu).2.2.fairshare]
    exact (AccountRecord.checks_of_toUpdate hu).2

theorem Reached.query_isFinite (h : e.Reached Config.Buildable) {u : UserSnapshot}
    (hu : u ∈ e.query) {s : AccountSnapshot} (hs : s ∈ u.banks) : s.fairshare.isFinite = true := by
  obtain ⟨userid, -, rfl⟩ := List.mem_map.mp hu
  obtain ⟨a, ha, rfl⟩ := List.mem_map.mp hs
  obtain ⟨⟨k, a⟩, he, rfl⟩ := List.mem_map.mp ha
  exact h.isFinite (Ledger.mem_entries.mp (List.mem_filter.mp he).1)

/-- A query of an engine that is reached with configurations that an engine can be built with
shows the accounts as they are, and its written form is read back as what it is. -/
theorem Reached.faithful (h : e.Reached Config.Buildable) : e.Faithful where
  users := by
    show (e.ledger.snapshot.map (·.userid)).Pairwise (· < ·)
    rw [Ledger.snapshot, List.map_map]
    simpa [Function.comp_def] using e.ledger.users_ascending
  banks u hu := by
    obtain ⟨userid, -, rfl⟩ := List.mem_map.mp hu
    have ascending := e.ledger.banks_ascending userid
    rw [List.pairwise_map] at ascending
    simp only [List.map_map, List.pairwise_map]
    exact ascending.imp Text.bytes_lt_bytes
  listed u hu := by
    obtain ⟨userid, listed, rfl⟩ := List.mem_map.mp hu
    simpa using Ledger.accountsOf_ne_nil listed
  shown userid bank a found := by
    refine ⟨a.snapshot, ?_, rfl, rfl, rfl, rfl, rfl⟩
    refine (e.ledger.entriesAt_snapshot userid bank).trans ?_
    rw [Ledger.accounts_of_lookup found]
    rfl
  absent userid bank missing := by
    refine (e.ledger.entriesAt_snapshot userid bank).trans ?_
    rw [Ledger.accounts_of_notFound missing]
    rfl
  oldestFirst t userid bank := by
    rw [query, query, Ledger.heldShown_snapshot, Ledger.heldShown_snapshot]
    exact e.heldAt_take t ⟨userid, bank⟩
  finite _ hu _ hs := h.query_isFinite hu hs
  readsBack := Decoder.list_array fun _ hu =>
    (UserSnapshot.readsBack fun _ hs => h.query_isFinite hu hs).object

/-! ### A sample -/

namespace Sample

/-- A user whom the feed did not tell of has a job. Then the feed tells of another user's accounts
in two banks, and the one with one running slot lets a job through and holds the next one. -/
def arrivals : List (Turn Host) :=
  [.call .new .null { World.Sample.bankless 5 with userid := 0 } {},
   .feed .accounts [World.Sample.record 1, World.Sample.recordIn "chemistry" 0],
   .call .new .null (World.Sample.job 8) {},
   .call .depend .null (World.Sample.job 8)
     { binding := some { account := ⟨World.Sample.key, 0⟩ } },
   .call .depend .null (World.Sample.job 9)
     { binding := some { account := ⟨World.Sample.key, 0⟩ } }]

theorem built_reached : built.Reached Config.Buildable := by
  have valid : Config.default.validated = .ok Config.default := by decide +kernel
  have buildable : Config.default.Buildable := ⟨{}, none, built, by rw [build, valid]; rfl⟩
  exact .built buildable ({} : Host) none

end Sample

/-- In the sample, a query shows two users, and the jobs at an account in the middle. -/
theorem sample_faithful :
    (Sample.built.takeAll Sample.arrivals).Reached Config.Buildable ∧
      (Sample.built.takeAll Sample.arrivals).query.map (fun u =>
          (u.userid, u.banks.map fun s => (s.bankName, s.curActiveJobs, s.heldJobs))) =
        [(0, [("unknown", 0, [])]), (1, [("chemistry", 0, []), ("physics", 1, [9])])] ∧
      (Sample.built.takeAll Sample.arrivals).Faithful := by
  have reached := Sample.built_reached.takeAll Sample.arrivals
  exact ⟨reached, by decide +kernel, reached.faithful⟩

end Engine

end JobAdmission

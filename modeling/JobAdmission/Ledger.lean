import JobAdmission.Account.Snapshot
import JobAdmission.Queue
import Std.Data.ExtTreeSet

/-!
# The ledger

This module holds what is known of accounts, default banks, queues and projects, and
how it changes. Accounts are kept under their keys. Who holds an account holds its
handle, and sees and changes it by that, whatever is kept under its key meanwhile. The
account of a job is looked up under the bank that the job names, or under its user's
default bank.
-/

namespace JobAdmission

/-- What is known of accounts, queues and projects. -/
structure Ledger where
  /-- The accounts that were created. -/
  objects : Std.ExtTreeMap Handle Account := ∅
  /-- The serial number of the account that is kept under a key. -/
  serials : Std.ExtTreeMap AccountKey Nat := ∅
  /-- The bank of the jobs of a user that name none. -/
  defaultBanks : Std.ExtTreeMap UserId String := ∅
  /-- The defined queues. -/
  queues : QueueTable := ∅
  /-- The known projects. -/
  projects : Std.ExtTreeSet String := ∅
  /-- Every account is known by its own handle. -/
  own : ∀ (h : Handle) (a : Account), objects[h]? = some a → a.handle = h := by simp
  /-- The accounts of a key are numbered, and the last one is kept. -/
  numbered : ∀ h : Handle, h ∈ objects ↔ ∃ n, serials[h.key]? = some n ∧ h.serial ≤ n := by simp

namespace Ledger

/-- Nothing is known yet. -/
def empty : Ledger := {}

/-- What is found for a job. -/
inductive Lookup where
  /-- A real account. -/
  | found (account : Account)
  /-- A placeholder. -/
  | placeholder (account : Account)
  /-- No account. -/
  | notFound

/-! ### Questions -/

/-- The handle of the account that is kept under a key. -/
def handle? (l : Ledger) (key : AccountKey) : Option Handle :=
  l.serials[key]?.map fun serial => ⟨key, serial⟩

/-- The account that is kept under a key. -/
def account? (l : Ledger) (key : AccountKey) : Option Account :=
  (l.handle? key).bind fun h => l.objects[h]?

/-- The accounts that are kept, with their keys, in ascending order. -/
def entries (l : Ledger) : List (AccountKey × Account) :=
  l.serials.keys.filterMap fun key => (l.account? key).map fun account => (key, account)

/-- The bank that a job is charged to, if it names one or its user has a default. -/
def bankFor (l : Ledger) (userid : UserId) (bank : Option String) : Option String :=
  bank <|> l.defaultBanks[userid]?

/-- The account of a user in a bank, or in the user's default bank. -/
def lookup (l : Ledger) (userid : UserId) (bank : Option String) : Lookup :=
  match (l.bankFor userid bank).bind fun b => l.account? ⟨userid, b⟩ with
  | none => .notFound
  | some account => if account.isPlaceholder then .placeholder account else .found account

/-- No account comes from the accounting feed. -/
def onlyPlaceholders (l : Ledger) : Bool := l.entries.all fun e => e.2.isPlaceholder

/-- The users with an account, each once, ascending. -/
def users (l : Ledger) : List UserId := (l.serials.keys.map (·.userid)).eraseDups

/-- The accounts of a user, in ascending order of banks. -/
def accountsOf (l : Ledger) (userid : UserId) : List Account :=
  (l.entries.filter fun e => e.1.userid = userid).map (·.2)

/-- All accounts as they are shown, in ascending order of users and banks. -/
def snapshot (l : Ledger) : List UserSnapshot :=
  l.users.map fun userid => ⟨userid, (l.accountsOf userid).map Account.snapshot⟩

/-! ### Changes -/

/-- The handle of the next account that is created under a key. -/
def fresh (l : Ledger) (key : AccountKey) : Handle :=
  ⟨key, l.serials[key]?.elim 0 (· + 1)⟩

/-- Creates an account and keeps it under its key. -/
def create (l : Ledger) (account : Account) : Ledger :=
  let h := l.fresh account.key
  { l with
    objects := l.objects.insert h { account with serial := h.serial }
    serials := l.serials.insert h.key h.serial
    own := fun h' a ha => by
      simp only [Std.ExtTreeMap.getElem?_insert, Std.LawfulEqOrd.compare_eq_iff_eq] at ha
      split at ha
      · rename_i same
        cases ha
        exact same
      · exact l.own h' a ha
    numbered := fun h' => by
      simp only [Std.ExtTreeMap.mem_insert, l.numbered, Std.ExtTreeMap.getElem?_insert,
        Std.LawfulEqOrd.compare_eq_iff_eq]
      obtain ⟨k, n⟩ := h'
      by_cases same : account.key = k
      · subst same
        cases hn : l.serials[account.key]? with
        | none => simp [h, fresh, hn]; omega
        | some m => simp [h, fresh, hn]; omega
      · simp [h, fresh, same] }

/-- Keeps an account in the place of what it was before. -/
def put (l : Ledger) (account : Account) : Ledger :=
  { l with
    objects := l.objects.modify account.handle fun _ => account
    own := fun h a ha => by
      simp only [Std.ExtTreeMap.getElem?_modify, Std.LawfulEqOrd.compare_eq_iff_eq] at ha
      split at ha
      · rename_i same
        obtain ⟨_, _, rfl⟩ := Option.map_eq_some_iff.mp ha
        exact same
      · exact l.own h a ha
    numbered := fun h => Std.ExtTreeMap.mem_modify.trans (l.numbered h) }

/-- The handle of a user's placeholder, which is created if there is none. -/
def placeholderHandle (l : Ledger) (userid : UserId) : Handle :=
  (l.handle? ⟨userid, Account.placeholderBank⟩).getD (l.fresh ⟨userid, Account.placeholderBank⟩)

/-- Makes sure that a user has a placeholder and some default bank. An account that is
kept under the placeholder's bank already stays as it is, and so does a default. -/
def ensurePlaceholder (l : Ledger) (userid : UserId) (fairshare : Binary64) : Ledger :=
  let kept := match l.account? ⟨userid, Account.placeholderBank⟩ with
    | none => l.create (.placeholder userid fairshare)
    | some _ => l
  { kept with defaultBanks := l.defaultBanks.insertIfNew userid Account.placeholderBank }

/-- Creates an account, or refreshes the terms of one that is there, and sets its user's
default bank. -/
def update (l : Ledger) (u : AccountUpdate) : Ledger :=
  let told := match l.account? u.key with
    | none => l.create (.ofUpdate u)
    | some account => l.put (account.refresh u.terms)
  { told with defaultBanks := l.defaultBanks.insert u.key.userid u.defaultBank }

/-! ### What is kept under a key -/

theorem key_of_handle? {l : Ledger} {k : AccountKey} {h : Handle} (hk : l.handle? k = some h) :
    h.key = k := by
  obtain ⟨n, -, rfl⟩ := Option.map_eq_some_iff.mp hk
  rfl

/-- The account that is kept under a key was created. -/
theorem mem_of_handle? {l : Ledger} {k : AccountKey} {h : Handle} (hk : l.handle? k = some h) :
    h ∈ l.objects := by
  obtain ⟨n, hn, rfl⟩ := Option.map_eq_some_iff.mp hk
  exact (l.numbered ⟨k, n⟩).mpr ⟨n, hn, Nat.le_refl n⟩

theorem handle?_eq (l : Ledger) (k : AccountKey) :
    l.handle? k = (l.account? k).map Account.handle := by
  cases hk : l.handle? k with
  | none => simp [account?, hk]
  | some h =>
    obtain ⟨a, ha⟩ := Std.ExtTreeMap.mem_iff_isSome_getElem?.mp (mem_of_handle? hk) |>
      Option.isSome_iff_exists.mp
    simp [account?, hk, ha, l.own h a ha]

theorem account?_of_handle? {l : Ledger} {k : AccountKey} {h : Handle}
    (hk : l.handle? k = some h) : l.account? k = l.objects[h]? := by
  rw [account?, hk, Option.bind_some]

theorem handle?_of_account? {l : Ledger} {k : AccountKey} {a : Account}
    (ha : l.account? k = some a) : l.handle? k = some a.handle := by
  rw [handle?_eq, ha, Option.map_some]

theorem key_of_account? {l : Ledger} {k : AccountKey} {a : Account}
    (ha : l.account? k = some a) : a.key = k := key_of_handle? (handle?_of_account? ha)

theorem object_of_account? {l : Ledger} {k : AccountKey} {a : Account}
    (ha : l.account? k = some a) : l.objects[a.handle]? = some a := by
  rw [← ha, account?_of_handle? (handle?_of_account? ha)]

theorem handle?_eq_none {l : Ledger} {k : AccountKey} :
    l.handle? k = none ↔ l.account? k = none := by
  rw [handle?_eq, Option.map_eq_none_iff]

theorem mem_serials {l : Ledger} {k : AccountKey} :
    k ∈ l.serials ↔ ∃ a, l.account? k = some a := by
  have same : (l.handle? k).isSome = (l.account? k).isSome := by
    rw [handle?_eq, Option.isSome_map]
  rw [handle?, Option.isSome_map] at same
  rw [Std.ExtTreeMap.mem_iff_isSome_getElem?, same, Option.isSome_iff_exists]

theorem mem_entries {l : Ledger} {e : AccountKey × Account} :
    e ∈ l.entries ↔ l.account? e.1 = some e.2 := by
  obtain ⟨k, a⟩ := e
  simp only [entries, List.mem_filterMap, Option.map_eq_some_iff, Prod.mk.injEq]
  constructor
  · rintro ⟨_, -, _, ha, rfl, rfl⟩
    exact ha
  · exact fun ha => ⟨k, Std.ExtTreeMap.mem_keys.mpr (mem_serials.mpr ⟨a, ha⟩), a, ha, rfl, rfl⟩

/-- Ledgers are the same if they hold the same accounts and keep the same ones. -/
theorem eq_of_objects {l l' : Ledger} (objects : ∀ h : Handle, l.objects[h]? = l'.objects[h]?)
    (handles : ∀ k, l.handle? k = l'.handle? k) (defaults : l.defaultBanks = l'.defaultBanks)
    (queues : l.queues = l'.queues) (projects : l.projects = l'.projects) : l = l' := by
  have objects : l.objects = l'.objects := Std.ExtTreeMap.ext_getElem? objects
  have serials : l.serials = l'.serials := Std.ExtTreeMap.ext_getElem? fun k => by
    have handle := handles k
    simp only [handle?] at handle
    exact Option.map_injective (fun n n' same => congrArg Handle.serial same) handle
  cases l
  cases l'
  simp_all

/-- Ledgers are the same if they keep the same accounts under the same keys, and the other
accounts that they hold are the same. -/
theorem eq_of_accounts {l l' : Ledger} (accounts : ∀ k, l.account? k = l'.account? k)
    (objects : ∀ h, l'.handle? h.key ≠ some h → l.objects[h]? = l'.objects[h]?)
    (defaults : l.defaultBanks = l'.defaultBanks) (queues : l.queues = l'.queues)
    (projects : l.projects = l'.projects) : l = l' := by
  have handles : ∀ k, l.handle? k = l'.handle? k := fun k => by
    rw [handle?_eq, handle?_eq, accounts]
  refine eq_of_objects (fun h => ?_) handles defaults queues projects
  by_cases hk : l'.handle? h.key = some h
  · rw [← account?_of_handle? hk, ← accounts, account?_of_handle? ((handles h.key).trans hk)]
  · exact objects h hk

/-- The first account of a key has the first handle. -/
theorem fresh_of_new {l : Ledger} {k : AccountKey} (new : l.account? k = none) :
    l.fresh k = ⟨k, 0⟩ := by
  rw [fresh, Option.map_eq_none_iff.mp (handle?_eq_none.mpr new)]
  rfl

/-- No account has the next handle yet. -/
theorem fresh_not_mem (l : Ledger) (k : AccountKey) : l.fresh k ∉ l.objects := by
  rw [l.numbered]
  rintro ⟨n, hn, le⟩
  simp only [fresh] at hn le
  rw [hn] at le
  exact absurd le (Nat.not_succ_le_self n)

/-! ### What a change does to an account -/

@[simp] theorem handle?_put (l : Ledger) (a : Account) (k : AccountKey) :
    (l.put a).handle? k = l.handle? k := rfl

theorem getElem?_objects_put (l : Ledger) (a : Account) (h : Handle) :
    (l.put a).objects[h]? =
      if a.handle = h then l.objects[h]?.map fun _ => a else l.objects[h]? := by
  rw [put, Std.ExtTreeMap.getElem?_modify]
  simp only [Std.LawfulEqOrd.compare_eq_iff_eq]
  split
  · rename_i same
    rw [same]
  · rfl

/-- What is put creates no account. -/
theorem getElem?_objects_put_eq_none {l : Ledger} {a : Account} {h : Handle} :
    (l.put a).objects[h]? = none ↔ l.objects[h]? = none := by
  rw [getElem?_objects_put]
  split
  · exact Option.map_eq_none_iff
  · rfl

/-- What is put for an account is held in its place, and the other accounts stay. -/
theorem getElem?_objects_put_of_mem {l : Ledger} {h : Handle} {a b : Account}
    (ha : l.objects[h]? = some a) (same : b.handle = a.handle) (h' : Handle) :
    (l.put b).objects[h']? = if h = h' then some b else l.objects[h']? := by
  rw [getElem?_objects_put, same, l.own h a ha]
  split
  · rename_i hk
    rw [← hk, ha]
    rfl
  · rfl

/-- What is put is seen under a key if the account of the key is the one meant. -/
theorem account?_put (l : Ledger) (a : Account) (k : AccountKey) :
    (l.put a).account? k = if l.handle? k = some a.handle then some a else l.account? k := by
  change ((l.handle? k).bind fun h => (l.put a).objects[h]?) = _
  rw [handle?_eq]
  cases hk : l.account? k with
  | none => simp
  | some b =>
    rw [Option.map_some, Option.bind_some, getElem?_objects_put, object_of_account? hk]
    simp [eq_comm]

/-- What is put for the account of a key is kept in its place, and the other keys keep theirs. -/
theorem account?_put_of_kept {l : Ledger} {k : AccountKey} {a b : Account}
    (ha : l.account? k = some a) (same : b.handle = a.handle) (k' : AccountKey) :
    (l.put b).account? k' = if k = k' then some b else l.account? k' := by
  have kept := handle?_of_account? ha
  rw [account?_put, same]
  by_cases hk : k = k'
  · subst hk
    rw [if_pos kept, if_pos rfl]
  · rw [if_neg hk, if_neg fun h => hk ((key_of_handle? kept).symm.trans (key_of_handle? h))]

@[simp] theorem key_fresh (l : Ledger) (k : AccountKey) : (l.fresh k).key = k := rfl

theorem handle?_create (l : Ledger) (a : Account) (k : AccountKey) :
    (l.create a).handle? k = if a.key = k then some (l.fresh k) else l.handle? k := by
  rw [handle?, create, Std.ExtTreeMap.getElem?_insert]
  by_cases hk : a.key = k
  · subst hk
    simp [fresh]
  · simp [hk, handle?]

theorem getElem?_objects_create (l : Ledger) (a : Account) (h : Handle) :
    (l.create a).objects[h]? =
      if l.fresh a.key = h then some { a with serial := h.serial } else l.objects[h]? := by
  rw [create, Std.ExtTreeMap.getElem?_insert]
  simp only [Std.LawfulEqOrd.compare_eq_iff_eq]
  split
  · rename_i same
    rw [same]
  · rfl

/-- The first account under a key is kept as it is. -/
theorem account?_create {l : Ledger} {a : Account} (new : l.account? a.key = none)
    (first : a.serial = 0) (k : AccountKey) :
    (l.create a).account? k = if a.key = k then some a else l.account? k := by
  rw [account?, handle?_create]
  by_cases hk : a.key = k
  · subst hk
    rw [if_pos rfl, if_pos rfl, Option.bind_some, getElem?_objects_create, if_pos rfl,
      fresh_of_new new]
    change some { a with serial := 0 } = some a
    rw [← first]
  · rw [if_neg hk, if_neg hk, account?]
    cases hh : l.handle? k with
    | none => rfl
    | some h =>
      have other : l.fresh a.key ≠ h := fun same =>
        hk (by rw [← l.key_fresh a.key, same, key_of_handle? hh])
      rw [Option.bind_some, Option.bind_some, getElem?_objects_create, if_neg other]

/-- A placeholder appears only where there is no account. -/
theorem account?_ensurePlaceholder (l : Ledger) (userid : UserId) (fairshare : Binary64)
    (k : AccountKey) :
    (l.ensurePlaceholder userid fairshare).account? k =
      if k = ⟨userid, Account.placeholderBank⟩ ∧ l.account? k = none
        then some (.placeholder userid fairshare) else l.account? k := by
  unfold ensurePlaceholder
  split
  · rename_i new
    refine (account?_create new rfl k).trans ?_
    by_cases hk : k = ⟨userid, Account.placeholderBank⟩
    · subst hk
      exact (if_pos rfl).trans (if_pos ⟨rfl, new⟩).symm
    · exact (if_neg (Ne.symm hk)).trans (if_neg fun h => hk h.1).symm
  · rename_i a old
    rw [if_neg]
    · rfl
    · rintro ⟨rfl, hn⟩
      simp [old] at hn

/-- The user's placeholder is kept under its key. -/
theorem handle?_ensurePlaceholder (l : Ledger) (userid : UserId) (fairshare : Binary64) :
    (l.ensurePlaceholder userid fairshare).handle? ⟨userid, Account.placeholderBank⟩ =
      some (l.placeholderHandle userid) := by
  rw [handle?_eq, account?_ensurePlaceholder, placeholderHandle]
  cases ha : l.account? ⟨userid, Account.placeholderBank⟩ with
  | none => simp [handle?_eq_none.mpr ha, fresh_of_new ha, Account.handle, Account.placeholder]
  | some a => simp [handle?_of_account? ha]

/-- The accounts that were there stay when a placeholder comes. -/
theorem objects_ensurePlaceholder_of_mem {l : Ledger} {h : Handle} {a : Account} (userid : UserId)
    (fairshare : Binary64) (ha : l.objects[h]? = some a) :
    (l.ensurePlaceholder userid fairshare).objects[h]? = some a := by
  unfold ensurePlaceholder
  split
  · have other : l.fresh ⟨userid, Account.placeholderBank⟩ ≠ h := by
      rintro rfl
      have there := Option.isSome_of_eq_some ha
      exact l.fresh_not_mem _ (Std.ExtTreeMap.mem_iff_isSome_getElem?.mpr there)
    refine (getElem?_objects_create l (.placeholder userid fairshare) h).trans ?_
    exact (if_neg other).trans ha
  · exact ha

theorem object_of_placeholderHandle (l : Ledger) (userid : UserId) (fairshare : Binary64) :
    (l.ensurePlaceholder userid fairshare).objects[l.placeholderHandle userid]? =
      (l.ensurePlaceholder userid fairshare).account? ⟨userid, Account.placeholderBank⟩ :=
  (account?_of_handle? (l.handle?_ensurePlaceholder userid fairshare)).symm

/-- An update creates its account, or gives it new terms, and leaves the others alone. -/
theorem account?_update (l : Ledger) (u : AccountUpdate) (k : AccountKey) :
    (l.update u).account? k =
      if u.key = k then some (((l.account? k).map (·.refresh u.terms)).getD (.ofUpdate u))
      else l.account? k := by
  unfold update
  split
  · rename_i new
    refine (account?_create new rfl k).trans ?_
    by_cases hk : u.key = k
    · subst hk
      rw [if_pos rfl, new]
      exact if_pos rfl
    · exact (if_neg hk).trans (if_neg hk).symm
  · rename_i a old
    refine (account?_put_of_kept (b := a.refresh u.terms) old rfl k).trans ?_
    by_cases hk : u.key = k
    · subst hk
      rw [if_pos rfl, if_pos rfl, old]
      rfl
    · rw [if_neg hk, if_neg hk]

/-- An update leaves the account of a key the one that it is. -/
theorem handle?_update_of_some {l : Ledger} {k : AccountKey} {h : Handle} (u : AccountUpdate)
    (hk : l.handle? k = some h) : (l.update u).handle? k = some h := by
  rw [handle?_eq] at hk ⊢
  obtain ⟨a, ha, rfl⟩ := Option.map_eq_some_iff.mp hk
  rw [account?_update, ha]
  split <;> rfl

/-- An update leaves alone all accounts that are not kept under their keys. -/
theorem getElem?_objects_update {l : Ledger} {u : AccountUpdate} {h : Handle}
    (hk : (l.update u).handle? h.key ≠ some h) : (l.update u).objects[h]? = l.objects[h]? := by
  unfold update at hk ⊢
  split at hk
  · refine (getElem?_objects_create l (.ofUpdate u) h).trans (if_neg fun same => hk ?_)
    subst same
    exact (handle?_create l (.ofUpdate u) u.key).trans (if_pos rfl)
  · rename_i a ha
    refine (getElem?_objects_put l (a.refresh u.terms) h).trans (if_neg fun same => hk ?_)
    have kept := handle?_of_account? ha
    have key : u.key = h.key := (key_of_account? ha).symm.trans (congrArg Handle.key same)
    rw [key] at kept
    exact kept.trans (congrArg some same)

/-! ### What a change does to queues and projects -/

@[simp] theorem queues_ensurePlaceholder (l : Ledger) (userid : UserId) (fairshare : Binary64) :
    (l.ensurePlaceholder userid fairshare).queues = l.queues := by
  unfold ensurePlaceholder
  split <;> rfl

@[simp] theorem projects_ensurePlaceholder (l : Ledger) (userid : UserId) (fairshare : Binary64) :
    (l.ensurePlaceholder userid fairshare).projects = l.projects := by
  unfold ensurePlaceholder
  split <;> rfl

@[simp] theorem queues_update (l : Ledger) (u : AccountUpdate) :
    (l.update u).queues = l.queues := by
  unfold update
  split <;> rfl

@[simp] theorem projects_update (l : Ledger) (u : AccountUpdate) :
    (l.update u).projects = l.projects := by
  unfold update
  split <;> rfl

/-! ### What a change does to a default bank -/

/-- A placeholder's bank becomes the default only of a user without one. -/
theorem getElem?_defaultBanks_ensurePlaceholder (l : Ledger) (userid : UserId)
    (fairshare : Binary64) (u : UserId) :
    (l.ensurePlaceholder userid fairshare).defaultBanks[u]? =
      if u = userid ∧ l.defaultBanks[u]? = none
        then some Account.placeholderBank else l.defaultBanks[u]? := by
  rw [ensurePlaceholder, Std.ExtTreeMap.getElem?_insertIfNew]
  by_cases h : u = userid
  · subst h
    by_cases hm : u ∈ l.defaultBanks
    · simp [hm]
    · simp [hm]
  · simp [h, Ne.symm h]

/-- An update sets the default bank of its account's user. -/
theorem getElem?_defaultBanks_update (l : Ledger) (u : AccountUpdate) (userid : UserId) :
    (l.update u).defaultBanks[userid]? =
      if u.key.userid = userid then some u.defaultBank else l.defaultBanks[userid]? := by
  simp [update, Std.ExtTreeMap.getElem?_insert]

end Ledger

end JobAdmission

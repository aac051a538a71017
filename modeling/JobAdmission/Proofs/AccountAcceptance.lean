import JobAdmission.Proofs.Reingest
import JobAdmission.Proofs.Rounding
import JobAdmission.Proofs.WrittenForms
import Mathlib.Tactic.MkIffOfInductiveProp

/-!
# Which account rows are accepted

This module proves which objects are rows on an account that stand for an update, and for which
one (`AccountRecord.acceptance`). The conditions are on what is under twelve keys (`Acceptable`),
and so is what the update is (`Tells`): two of the fields go by either of two keys and by no more
than one at a time, integers have bounds of their own, numbers of jobs stop at 32 bits, and a
default bank or project may be left open. Nothing else in the object matters.

An object is read as the row that it holds (`ReadFrom`, `decode_eq_ok_iff`), and the row is turned
into an update if its bank has a name, its share is finite and its two limits are among those that
numbers stand for (`RunLimit.Of`, `ActiveLimitOf`). A share is finite already by being a number of
well-formed data (`Json.wellFormed`), as integers of 64 bits are far from the greatest finite
number.
-/

namespace JobAdmission

/-! ### Data -/

namespace Json

mutual

/-- Integers fit in 64 bits with or without a sign, other numbers are finite, and the keys of an
object are distinct. -/
def wellFormed : Json → Bool
  | .integer n => -2 ^ 63 ≤ n && n < 2 ^ 64
  | .float x => x.isFinite
  | .array vs => wellFormedValues vs
  | .object es => decide (es.map (·.1)).Nodup && wellFormedEntries es
  | .null | .boolean _ | .string _ => true

/-- All values of a sequence are well-formed. -/
def wellFormedValues : List Json → Bool
  | [] => true
  | v :: vs => v.wellFormed && wellFormedValues vs

/-- All values of an object are well-formed. -/
def wellFormedEntries : List (String × Json) → Bool
  | [] => true
  | (_, v) :: es => v.wellFormed && wellFormedEntries es

end

variable {es : List (String × Json)} {key second : String} {v w : Json}

theorem nodup_of_wellFormed (h : (object es).wellFormed = true) : (es.map (·.1)).Nodup := by
  rw [wellFormed, Bool.and_eq_true, decide_eq_true_eq] at h
  exact h.1

/-- What is under a key of well-formed data is well-formed. -/
theorem wellFormed_of_get? (h : (object es).wellFormed = true)
    (found : (object es).get? key = some w) : w.wellFormed = true := by
  rw [wellFormed, Bool.and_eq_true] at h
  obtain ⟨-, values⟩ := h
  obtain ⟨e, he, rfl⟩ := Option.map_eq_some_iff.mp found
  have mem := List.mem_of_find?_eq_some he
  clear he found
  induction es with
  | nil => cases mem
  | cons e' es ih =>
    rw [wellFormedEntries, Bool.and_eq_true] at values
    obtain rfl | later := List.mem_cons.mp mem
    · exact values.1
    · exact ih values.2 later

/-- This is under one of two keys, and nothing is under the other one. -/
def EitherKey (v : Json) (key second : String) (w : Json) : Prop :=
  v.get? key = some w ∧ v.get? second = none ∨ v.get? key = none ∧ v.get? second = some w

theorem EitherKey.once (h : (object es).EitherKey key second w) :
    key ∈ es.map (·.1) → second ∉ es.map (·.1) := by
  obtain ⟨-, absent⟩ | ⟨absent, -⟩ := h
  · exact fun _ => get?_eq_none_iff.mp absent
  · exact fun there => absurd there (get?_eq_none_iff.mp absent)

/-- Where something is under one of two keys at most, it is found under either of them. -/
theorem or_eq_some_iff (once : key ∈ es.map (·.1) → second ∉ es.map (·.1)) :
    ((object es).get? key).or ((object es).get? second) = some w ↔
      (object es).EitherKey key second w := by
  by_cases first : key ∈ es.map (·.1)
  · have absent := get?_eq_none_iff.mpr (once first)
    have found : (object es).get? key ≠ none := fun h => get?_eq_none_iff.mp h first
    simp [EitherKey, absent, found]
  · simp [EitherKey, get?_eq_none_iff.mpr first]

theorem integer_inj {v : Json} {m n : Int} (h : v.get? key = some (.integer m))
    (h' : v.get? key = some (.integer n)) : m = n := by
  simpa [h] using h'

/-- Under a key there is this text, or nothing, which stands for the empty text. -/
def TextUnder (v : Json) (key s : String) : Prop :=
  v.get? key = some (.string s) ∨ v.get? key = none ∧ s = ""

/-- Under one of two keys there is this text, or `null`, or there is nothing under either. -/
def OptionUnder (v : Json) (key second : String) (s : Option String) : Prop :=
  v.EitherKey key second (.ofOption .string s) ∨
    (v.get? key = none ∧ v.get? second = none) ∧ s = none

/-- The text that is there is under one of the keys. -/
theorem OptionUnder.eq_some_iff {v : Json} {o : Option String} {s : String}
    (h : v.OptionUnder key second o) :
    o = some s ↔ v.get? key = some (.string s) ∨ v.get? second = some (.string s) := by
  obtain (⟨found, absent⟩ | ⟨absent, found⟩) | ⟨⟨absent, absent'⟩, rfl⟩ := h
  · cases o <;> simp [found, absent, ofOption]
  · cases o <;> simp [found, absent, ofOption]
  · simp [absent, absent']

theorem exists_optionUnder_iff {v : Json} : (∃ o, v.OptionUnder key second o) ↔
    (v.get? key = none ∨ v.get? second = none) ∧
      ∀ w, v.get? key = some w ∨ v.get? second = some w → w = .null ∨ ∃ s, w = .string s := by
  have nullOrText : ∀ w, (w = .null ∨ ∃ s, w = .string s) ↔ ∃ o, w = ofOption .string o := by
    intro w
    constructor
    · rintro (rfl | ⟨s, rfl⟩)
      · exact ⟨none, rfl⟩
      · exact ⟨some s, rfl⟩
    · rintro ⟨_ | s, rfl⟩
      · exact .inl rfl
      · exact .inr ⟨s, rfl⟩
  simp only [nullOrText]
  constructor
  · rintro ⟨o, (⟨found, absent⟩ | ⟨absent, found⟩) | ⟨⟨absent, absent'⟩, -⟩⟩
    · refine ⟨.inr absent, fun w hw => ⟨o, ?_⟩⟩
      simpa [found, absent, eq_comm] using hw
    · refine ⟨.inl absent, fun w hw => ⟨o, ?_⟩⟩
      simpa [found, absent, eq_comm] using hw
    · exact ⟨.inl absent, fun w hw => by simp [absent, absent'] at hw⟩
  · rintro ⟨absent | absent, typed⟩
    · cases found : v.get? second with
      | none => exact ⟨none, .inr ⟨⟨absent, found⟩, rfl⟩⟩
      | some w =>
        obtain ⟨o, rfl⟩ := typed w (.inr found)
        exact ⟨o, .inl (.inr ⟨absent, found⟩)⟩
    · cases found : v.get? key with
      | none => exact ⟨none, .inr ⟨⟨found, absent⟩, rfl⟩⟩
      | some w =>
        obtain ⟨o, rfl⟩ := typed w (.inl found)
        exact ⟨o, .inl (.inl ⟨found, absent⟩)⟩

theorem OptionUnder.once {s : Option String} (h : (object es).OptionUnder key second s) :
    key ∈ es.map (·.1) → second ∉ es.map (·.1) := by
  obtain either | ⟨⟨absent, -⟩, -⟩ := h
  · exact either.once
  · exact fun there => absurd there (get?_eq_none_iff.mp absent)

end Json

/-! ### Limits -/

/-- A positive number, as a cap of 32 bits. -/
def CapOf (n : Int) (slots : UInt32) : Prop := 0 < n ∧ (slots.toNat : Int) = min n (2 ^ 32 - 1)

/-- A number of a row stands for this limit on running jobs. -/
inductive RunLimit.Of : Int → RunLimit → Prop where
  | zero : Of 0 .unlimited
  | missing : Of (-1) .unlimited
  | detach : Of (-2) .detached
  | cap {n : Int} {slots : UInt32} (h : CapOf n slots) : Of n (.capped slots)

/-- A number of a row stands for this limit on active jobs. -/
inductive ActiveLimitOf : Int → Option UInt32 → Prop where
  | zero : ActiveLimitOf 0 none
  | cap {n : Int} {slots : UInt32} (h : CapOf n slots) : ActiveLimitOf n (some slots)

theorem exists_capOf {n : Int} (h : 0 < n) : ∃ slots, CapOf n slots := by
  refine ⟨UInt32.ofNat (min n (2 ^ 32 - 1)).toNat, h, ?_⟩
  rw [UInt32.toNat_ofNat', Nat.mod_eq_of_lt (by omega)]
  omega

theorem capOf_iff {n : Int64} {slots : UInt32} :
    CapOf n.toInt slots ↔ 0 < n ∧ UInt32.ofNat (min n.toInt.toNat RunLimit.maxSlots) = slots := by
  rw [CapOf, Int64.lt_iff_toInt_lt, ← UInt32.toNat_inj, UInt32.toNat_ofNat', RunLimit.maxSlots,
    UInt32.size, Nat.mod_eq_of_lt (by omega)]
  refine and_congr_right fun (pos : 0 < n.toInt) => ?_
  omega

theorem RunLimit.Of.le {n : Int} {limit : RunLimit} (h : RunLimit.Of n limit) : -2 ≤ n := by
  cases h with
  | zero | missing | detach => decide
  | cap h =>
    have pos := h.1
    omega

theorem ActiveLimitOf.nonneg {n : Int} {limit : Option UInt32} (h : ActiveLimitOf n limit) :
    0 ≤ n := by
  cases h with
  | zero => exact le_rfl
  | cap h => exact h.1.le

theorem RunLimit.exists_of {n : Int} (h : -2 ≤ n) : ∃ limit, RunLimit.Of n limit := by
  obtain rfl | rfl | rfl | pos : n = -2 ∨ n = -1 ∨ n = 0 ∨ 0 < n := by omega
  · exact ⟨_, .detach⟩
  · exact ⟨_, .missing⟩
  · exact ⟨_, .zero⟩
  · obtain ⟨slots, h⟩ := exists_capOf pos
    exact ⟨_, .cap h⟩

theorem exists_activeLimitOf {n : Int} (h : 0 ≤ n) : ∃ limit, ActiveLimitOf n limit := by
  obtain rfl | pos := h.eq_or_lt
  · exact ⟨_, .zero⟩
  · obtain ⟨slots, h⟩ := exists_capOf pos
    exact ⟨_, .cap h⟩

theorem RunLimit.ofNumber?_eq_some_iff {n : Int64} {limit : RunLimit} :
    ofNumber? n = some limit ↔ RunLimit.Of n.toInt limit := by
  constructor
  · intro h
    unfold ofNumber? at h
    split at h
    · rename_i unbounded
      obtain rfl | rfl := unbounded
      · cases h
        exact .zero
      · cases h
        exact .missing
    · split at h
      · rename_i detached
        cases detached
        cases h
        exact .detach
      · split at h
        · rename_i pos
          cases h
          exact .cap (capOf_iff.mpr ⟨pos, rfl⟩)
        · cases h
  · intro h
    generalize hm : n.toInt = m at h
    cases h with
    | zero =>
      obtain rfl : n = 0 := Int64.toInt_inj.mp hm
      rfl
    | missing =>
      obtain rfl : n = -1 := Int64.toInt_inj.mp hm
      rfl
    | detach =>
      obtain rfl : n = -2 := Int64.toInt_inj.mp hm
      rfl
    | cap h =>
      obtain ⟨pos, rfl⟩ := capOf_iff.mp (hm ▸ h)
      have bounded : ¬(n = 0 ∨ n = -1) := by
        rintro (rfl | rfl)
        · exact absurd pos (by decide)
        · exact absurd pos (by decide)
      have attached : n ≠ -2 := by
        rintro rfl
        exact absurd pos (by decide)
      rw [ofNumber?, if_neg bounded, if_neg attached, if_pos pos]

theorem AccountRecord.activeLimit?_eq_some_iff {n : Int64} {limit : Option UInt32} :
    activeLimit? n = some limit ↔ ActiveLimitOf n.toInt limit := by
  constructor
  · intro h
    unfold activeLimit? at h
    split at h
    · rename_i zero
      cases zero
      cases h
      exact .zero
    · split at h
      · rename_i pos
        cases h
        exact .cap (capOf_iff.mpr ⟨pos, rfl⟩)
      · cases h
  · intro h
    generalize hm : n.toInt = m at h
    cases h with
    | zero =>
      obtain rfl : n = 0 := Int64.toInt_inj.mp hm
      rfl
    | cap h =>
      obtain ⟨pos, rfl⟩ := capOf_iff.mp (hm ▸ h)
      have bounded : n ≠ 0 := by
        rintro rfl
        exact absurd pos (by decide)
      rw [activeLimit?, if_neg bounded, if_pos pos]

/-! ### Rows -/

namespace AccountRecord

/-- The row is read from this data. -/
@[mk_iff]
structure ReadFrom (v : Json) (r : AccountRecord) : Prop where
  userid : v.get? "userid" = some (.ofUInt32 r.userid)
  bank : v.get? "bank" = some (.string r.bank)
  defaultBank : v.EitherKey "default_bank" "def_bank" (.string r.defaultBank)
  fairshare : v.get? "fairshare" = some (.float r.fairshare) ∨
    ∃ n, v.get? "fairshare" = some (.integer n) ∧ Binary64.ofInt n = r.fairshare
  maxRunningJobs : v.get? "max_running_jobs" = some (.ofInt64 r.maxRunningJobs)
  maxActiveJobs : v.get? "max_active_jobs" = some (.ofInt64 r.maxActiveJobs)
  queues : v.TextUnder "queues" r.queues
  active : v.get? "active" = some (.ofInt64 r.active)
  projects : v.TextUnder "projects" r.projects
  defaultProject : v.OptionUnder "default_project" "def_project" r.defaultProject

variable {es : List (String × Json)} {r : AccountRecord}

theorem checked : fields.Checked :=
  (Fields.Checked.single _).map AccountRecord.mk
    |>.seq (.single _) |>.seq (.single _) |>.seq (.single _) |>.seq (.single _)
    |>.seq (.single _) |>.seq (.single _) |>.seq (.single _) |>.seq (.single _)
    |>.seq (.single _)

theorem secondNames_eq : secondNames fields.columns =
    [("default_bank", "def_bank"), ("default_project", "def_project")] := rfl

theorem fill_eq_ok_iff (bank : "default_bank" ∈ es.map (·.1) → "def_bank" ∉ es.map (·.1))
    (project : "default_project" ∈ es.map (·.1) → "def_project" ∉ es.map (·.1)) :
    fields.fill (.named es) 0 = .ok r ↔ ReadFrom (.object es) r := by
  simp only [fields, Fields.fill_seq, Fields.fill_map, Fields.fill_required, Fields.fill_optional,
    Fields.fill_requiredAs bank, Fields.fill_optionalAs project, Json.or_eq_some_iff bank,
    Json.or_eq_some_iff project, Option.or_eq_none_iff, Decoder.uint32_eq_ok_iff,
    Decoder.string_eq_ok_iff, Decoder.int64_eq_ok_iff, Decoder.option_string_eq_ok_iff,
    Decoder.float_eq_ok_iff, exists_eq_right, eq_comm (a := ""), eq_comm (a := none)]
  constructor
  · rintro ⟨_, project, ⟨_, projects, ⟨_, active, ⟨_, queues, ⟨_, maxActiveJobs,
      ⟨_, maxRunningJobs, ⟨_, fairshare, ⟨_, defaultBank, ⟨_, bank, ⟨userid, h₁, rfl⟩, h₂, rfl⟩,
      h₃, rfl⟩, h₄, rfl⟩, h₅, rfl⟩, h₆, rfl⟩, h₇, rfl⟩, h₈, rfl⟩, h₉, rfl⟩, h₁₀, rfl⟩
    refine ⟨h₁, h₂, h₃, ?_, h₅, h₆, h₇, h₈, h₉, h₁₀⟩
    obtain ⟨v, hv, rfl | ⟨n, rfl, h⟩⟩ := h₄
    · exact .inl hv
    · exact .inr ⟨n, hv, h⟩
  · intro h
    have fairshare : ∃ v, (Json.object es).get? "fairshare" = some v ∧
        (v = .float r.fairshare ∨ ∃ n, v = .integer n ∧ Binary64.ofInt n = r.fairshare) := by
      obtain found | ⟨n, found, same⟩ := h.fairshare
      · exact ⟨_, found, .inl rfl⟩
      · exact ⟨_, found, .inr ⟨n, rfl, same⟩⟩
    exact ⟨_, _, ⟨_, _, ⟨_, _, ⟨_, _, ⟨_, _, ⟨_, _, ⟨_, _, ⟨_, _, ⟨_, _, ⟨_, h.userid, rfl⟩,
      h.bank, rfl⟩, h.defaultBank, rfl⟩, fairshare, rfl⟩, h.maxRunningJobs, rfl⟩,
      h.maxActiveJobs, rfl⟩, h.queues, rfl⟩, h.active, rfl⟩, h.projects, rfl⟩,
      h.defaultProject, rfl⟩

/-- An object with distinct keys is read as the row that it holds. -/
theorem decode_eq_ok_iff (distinct : (es.map (·.1)).Nodup) :
    decode (.object es) = .ok r ↔ ReadFrom (.object es) r := by
  rw [decode, checked.decode_object_eq_ok_iff apart, metOnce_iff apart distinct, secondNames_eq]
  simp only [List.forall_mem_cons, List.not_mem_nil, false_imp_iff, implies_true, and_true]
  constructor
  · rintro ⟨⟨bank, project⟩, filled⟩
    exact (fill_eq_ok_iff bank project).mp filled
  · intro h
    have bank := h.defaultBank.once
    have project := h.defaultProject.once
    exact ⟨⟨bank, project⟩, (fill_eq_ok_iff bank project).mpr h⟩

theorem toUpdate_eq_ok_iff {u : AccountUpdate} : r.toUpdate = .ok u ↔
    r.bank ≠ "" ∧ r.fairshare.isFinite = true ∧
      u.key = ⟨r.userid, r.bank⟩ ∧ u.defaultBank = r.bankByDefault ∧ r.Grants u.terms := by
  constructor
  · intro h
    exact ⟨(checks_of_toUpdate h).1, (checks_of_toUpdate h).2, grants_of_toUpdate h⟩
  · rintro ⟨bank, finite, key, default, grants⟩
    rw [toUpdate_eq_ok bank finite grants, ← key, ← default]

/-! ### Acceptance -/

/-- Data that is a row on an account and stands for an update. -/
structure Acceptable (v : Json) : Prop where
  userid : ∃ n, v.get? "userid" = some (.integer n) ∧ 0 ≤ n ∧ n ≤ 2 ^ 32 - 1
  bank : ∃ s, v.get? "bank" = some (.string s) ∧ s ≠ ""
  defaultBank : ∃ s, v.EitherKey "default_bank" "def_bank" (.string s)
  fairshare : (∃ n, v.get? "fairshare" = some (.integer n)) ∨
    ∃ x, v.get? "fairshare" = some (.float x)
  maxRunningJobs : ∃ n, v.get? "max_running_jobs" = some (.integer n) ∧ -2 ≤ n ∧ n ≤ 2 ^ 63 - 1
  maxActiveJobs : ∃ n, v.get? "max_active_jobs" = some (.integer n) ∧ 0 ≤ n ∧ n ≤ 2 ^ 63 - 1
  active : ∃ n, v.get? "active" = some (.integer n) ∧ -2 ^ 63 ≤ n ∧ n ≤ 2 ^ 63 - 1
  queues : v.get? "queues" = none ∨ ∃ s, v.get? "queues" = some (.string s)
  projects : v.get? "projects" = none ∨ ∃ s, v.get? "projects" = some (.string s)
  defaultProject : (v.get? "default_project" = none ∨ v.get? "def_project" = none) ∧
    ∀ w, v.get? "default_project" = some w ∨ v.get? "def_project" = some w →
      w = .null ∨ ∃ s, w = .string s

/-- The update is what the data tells. -/
structure Tells (v : Json) (u : AccountUpdate) : Prop where
  userid : v.get? "userid" = some (.ofUInt32 u.key.userid)
  bank : v.get? "bank" = some (.string u.key.bank)
  /-- An empty default bank stands for the row's own bank. -/
  defaultBank : ∃ s, v.EitherKey "default_bank" "def_bank" (.string s) ∧
    u.defaultBank = if s = "" then u.key.bank else s
  fairshare : v.get? "fairshare" = some (.float u.terms.fairshare) ∨
    ∃ n, v.get? "fairshare" = some (.integer n) ∧ Binary64.ofInt n = u.terms.fairshare
  runLimit : ∃ n, v.get? "max_running_jobs" = some (.integer n) ∧ RunLimit.Of n u.terms.runLimit
  activeLimit : ∃ n, v.get? "max_active_jobs" = some (.integer n) ∧
    ActiveLimitOf n u.terms.activeLimit
  enabled : ∃ n, v.get? "active" = some (.integer n) ∧ (u.terms.enabled = true ↔ n ≠ 0)
  queues : ∃ s, v.TextUnder "queues" s ∧ u.terms.queues = Text.commaList s
  projects : ∃ s, v.TextUnder "projects" s ∧ u.terms.projects = Text.commaList s
  /-- There is none if it is absent, `null`, empty or `*`. -/
  defaultProject : ∀ s, u.terms.defaultProject = some s ↔
    (v.get? "default_project" = some (.string s) ∨ v.get? "def_project" = some (.string s)) ∧
      s ≠ "" ∧ s ≠ "*"

variable {v : Json} {u : AccountUpdate}

theorem namedProject_eq_some_iff {s : String} :
    r.namedProject = some s ↔ r.defaultProject = some s ∧ s ≠ "" ∧ s ≠ "*" := by
  simp [namedProject, Option.filter_eq_some_iff]

theorem ReadFrom.acceptable (h : ReadFrom v r) (hu : r.toUpdate = .ok u) : Acceptable v := by
  obtain ⟨bank, -, -, -, grants⟩ := toUpdate_eq_ok_iff.mp hu
  constructor
  case userid =>
    have high := r.userid.toNat_lt
    exact ⟨_, h.userid, by omega, by omega⟩
  case bank => exact ⟨_, h.bank, bank⟩
  case defaultBank => exact ⟨_, h.defaultBank⟩
  case fairshare =>
    obtain found | ⟨n, found, -⟩ := h.fairshare
    · exact .inr ⟨_, found⟩
    · exact .inl ⟨n, found⟩
  case maxRunningJobs =>
    have low := (RunLimit.ofNumber?_eq_some_iff.mp grants.runLimit).le
    exact ⟨_, h.maxRunningJobs, low, Int.le_sub_one_of_lt r.maxRunningJobs.toInt_lt⟩
  case maxActiveJobs =>
    have low := (activeLimit?_eq_some_iff.mp grants.activeLimit).nonneg
    exact ⟨_, h.maxActiveJobs, low, Int.le_sub_one_of_lt r.maxActiveJobs.toInt_lt⟩
  case active =>
    exact ⟨_, h.active, r.active.le_toInt, Int.le_sub_one_of_lt r.active.toInt_lt⟩
  case queues => exact h.queues.symm.imp And.left fun found => ⟨_, found⟩
  case projects => exact h.projects.symm.imp And.left fun found => ⟨_, found⟩
  case defaultProject => exact Json.exists_optionUnder_iff.mp ⟨_, h.defaultProject⟩

theorem ReadFrom.tells (h : ReadFrom v r) (hu : r.toUpdate = .ok u) : Tells v u := by
  obtain ⟨-, -, key, default, grants⟩ := toUpdate_eq_ok_iff.mp hu
  constructor
  case userid => rw [key]; exact h.userid
  case bank => rw [key]; exact h.bank
  case defaultBank =>
    refine ⟨_, h.defaultBank, ?_⟩
    rw [key]
    exact default
  case fairshare => rw [grants.fairshare]; exact h.fairshare
  case runLimit => exact ⟨_, h.maxRunningJobs, RunLimit.ofNumber?_eq_some_iff.mp grants.runLimit⟩
  case activeLimit => exact ⟨_, h.maxActiveJobs, activeLimit?_eq_some_iff.mp grants.activeLimit⟩
  case enabled =>
    refine ⟨_, h.active, ?_⟩
    rw [grants.enabled, ne_eq, ← Int64.toInt_inj]
    rfl
  case queues => exact ⟨_, h.queues, grants.queues⟩
  case projects => exact ⟨_, h.projects, grants.projects⟩
  case defaultProject =>
    intro s
    rw [grants.defaultProject, namedProject_eq_some_iff, h.defaultProject.eq_some_iff]

/-- Data that is acceptable holds a row that stands for the update that the data tells. -/
theorem Acceptable.exists_readFrom (h : Acceptable v) (tells : Tells v u)
    (finite : u.terms.fairshare.isFinite = true) : ∃ r, ReadFrom v r ∧ r.toUpdate = .ok u := by
  obtain ⟨default, defaultBank, bankByDefault⟩ := tells.defaultBank
  obtain ⟨queues, queuesUnder, queuesOf⟩ := tells.queues
  obtain ⟨projects, projectsUnder, projectsOf⟩ := tells.projects
  obtain ⟨project, projectUnder⟩ := Json.exists_optionUnder_iff.mpr h.defaultProject
  -- the three integers are of 64 bits
  obtain ⟨running, maxRunningJobs, low, high⟩ := h.maxRunningJobs
  obtain ⟨active, maxActiveJobs, low', high'⟩ := h.maxActiveJobs
  obtain ⟨use, inUse, low'', high''⟩ := h.active
  have running_eq : (Int64.ofInt running).toInt = running :=
    Int64.toInt_ofInt_of_le (by omega) (by omega)
  have active_eq : (Int64.ofInt active).toInt = active :=
    Int64.toInt_ofInt_of_le (by omega) (by omega)
  have use_eq : (Int64.ofInt use).toInt = use := Int64.toInt_ofInt_of_le low'' (by omega)
  refine ⟨⟨u.key.userid, u.key.bank, default, u.terms.fairshare, .ofInt running, .ofInt active,
    queues, .ofInt use, projects, project⟩, ?_, ?_⟩
  · exact {
      userid := tells.userid
      bank := tells.bank
      defaultBank := defaultBank
      fairshare := tells.fairshare
      maxRunningJobs := by rw [Json.ofInt64, running_eq, maxRunningJobs]
      maxActiveJobs := by rw [Json.ofInt64, active_eq, maxActiveJobs]
      queues := queuesUnder
      active := by rw [Json.ofInt64, use_eq, inUse]
      projects := projectsUnder
      defaultProject := projectUnder }
  · have named : u.key.bank ≠ "" := by
      obtain ⟨s, found, named⟩ := h.bank
      have same : u.key.bank = s := by simpa [tells.bank] using found
      exact same ▸ named
    refine toUpdate_eq_ok_iff.mpr ⟨named, finite, rfl, bankByDefault, ?_⟩
    constructor
    case fairshare => rfl
    case runLimit =>
      obtain ⟨n, found, limit⟩ := tells.runLimit
      obtain rfl := Json.integer_inj maxRunningJobs found
      exact RunLimit.ofNumber?_eq_some_iff.mpr (running_eq.symm ▸ limit)
    case activeLimit =>
      obtain ⟨n, found, limit⟩ := tells.activeLimit
      obtain rfl := Json.integer_inj maxActiveJobs found
      exact activeLimit?_eq_some_iff.mpr (active_eq.symm ▸ limit)
    case queues => exact queuesOf
    case enabled =>
      obtain ⟨n, found, enabled⟩ := tells.enabled
      obtain rfl := Json.integer_inj inUse found
      rw [enabled, ne_eq, ne_eq, ← Int64.toInt_inj, use_eq]
      rfl
    case projects => exact projectsOf
    case defaultProject =>
      refine Option.ext fun s => ?_
      rw [tells.defaultProject, namedProject_eq_some_iff, projectUnder.eq_some_iff]

/-- Acceptable data tells an update. -/
theorem Acceptable.exists_tells (h : Acceptable v) : ∃ u, Tells v u := by
  obtain ⟨userid, useridFound, low, high⟩ := h.userid
  obtain ⟨bank, bankFound, -⟩ := h.bank
  obtain ⟨default, defaultBank⟩ := h.defaultBank
  obtain ⟨running, maxRunningJobs, least, -⟩ := h.maxRunningJobs
  obtain ⟨runLimit, runLimitOf⟩ := RunLimit.exists_of least
  obtain ⟨active, maxActiveJobs, least', -⟩ := h.maxActiveJobs
  obtain ⟨activeLimit, activeLimitOf⟩ := exists_activeLimitOf least'
  obtain ⟨use, inUse, -⟩ := h.active
  obtain ⟨project, projectUnder⟩ := Json.exists_optionUnder_iff.mpr h.defaultProject
  have fairshare : ∃ x, v.get? "fairshare" = some (.float x) ∨
      ∃ n, v.get? "fairshare" = some (.integer n) ∧ Binary64.ofInt n = x := by
    obtain ⟨n, found⟩ | ⟨x, found⟩ := h.fairshare
    · exact ⟨_, .inr ⟨n, found, rfl⟩⟩
    · exact ⟨x, .inl found⟩
  have queues : ∃ s, v.TextUnder "queues" s := by
    obtain absent | ⟨s, found⟩ := h.queues
    · exact ⟨"", .inr ⟨absent, rfl⟩⟩
    · exact ⟨s, .inl found⟩
  have projects : ∃ s, v.TextUnder "projects" s := by
    obtain absent | ⟨s, found⟩ := h.projects
    · exact ⟨"", .inr ⟨absent, rfl⟩⟩
    · exact ⟨s, .inl found⟩
  obtain ⟨share, fairshare⟩ := fairshare
  obtain ⟨queues, queuesUnder⟩ := queues
  obtain ⟨projects, projectsUnder⟩ := projects
  have userid_eq : Json.ofUInt32 (UInt32.ofNat userid.toNat) = .integer userid := by
    rw [Json.ofUInt32, UInt32.toNat_ofNat', Nat.mod_eq_of_lt (by omega), Int.toNat_of_nonneg low]
  exact ⟨⟨⟨UInt32.ofNat userid.toNat, bank⟩, if default = "" then bank else default,
    { fairshare := share, runLimit, activeLimit, queues := Text.commaList queues
      enabled := decide (use ≠ 0), projects := Text.commaList projects
      defaultProject := project.filter fun p => p ≠ "" && p ≠ "*" }⟩,
    { userid := by rw [userid_eq, useridFound]
      bank := bankFound
      defaultBank := ⟨default, defaultBank, rfl⟩
      fairshare := fairshare
      runLimit := ⟨running, maxRunningJobs, runLimitOf⟩
      activeLimit := ⟨active, maxActiveJobs, activeLimitOf⟩
      enabled := ⟨use, inUse, decide_eq_true_iff⟩
      queues := ⟨queues, queuesUnder, rfl⟩
      projects := ⟨projects, projectsUnder, rfl⟩
      defaultProject := fun s => by
        rw [← projectUnder.eq_some_iff]
        simp [Option.filter_eq_some_iff] }⟩

/-! ### Which rows are accepted -/

/-- The share that well-formed data tells is finite. -/
theorem Tells.isFinite (wellFormed : (Json.object es).wellFormed = true)
    (h : Tells (.object es) u) : u.terms.fairshare.isFinite = true := by
  obtain found | ⟨n, found, same⟩ := h.fairshare
  · exact Json.wellFormed_of_get? wellFormed found
  · have range := Json.wellFormed_of_get? wellFormed found
    simp only [Json.wellFormed, Bool.and_eq_true, decide_eq_true_eq] at range
    exact same ▸ Binary64.isFinite_ofInt range.1 range.2.le

theorem readUpdate_eq_ok_iff (distinct : (es.map (·.1)).Nodup) :
    readUpdate (.object es) = .ok u ↔ ∃ r, ReadFrom (.object es) r ∧ r.toUpdate = .ok u := by
  simp only [← decode_eq_ok_iff distinct]
  unfold readUpdate
  cases decode (.object es) with
  | error e => simp
  | ok r => simp

/-- The keys that are looked at. -/
def knownKeys : List String := fields.columns.flatMap Column.keys

theorem knownKeys_eq : knownKeys = ["userid", "bank", "default_bank", "def_bank", "fairshare",
    "max_running_jobs", "max_active_jobs", "queues", "active", "projects", "default_project",
    "def_project"] := rfl

/-- A row is read from what is under these keys. -/
theorem ReadFrom.congr {v' : Json} (same : ∀ key ∈ knownKeys, v'.get? key = v.get? key) :
    ReadFrom v' r ↔ ReadFrom v r := by
  simp only [knownKeys_eq, List.forall_mem_cons, List.not_mem_nil, false_imp_iff, implies_true,
    and_true] at same
  simp only [readFrom_iff, Json.EitherKey, Json.TextUnder, Json.OptionUnder, same]

/-- Exactly the acceptable data is accepted, and it stands for the update that it tells. What is
under other keys does not matter. -/
theorem acceptance (wellFormed : (Json.object es).wellFormed = true) :
    ((∃ u, readUpdate (.object es) = .ok u) ↔ Acceptable (.object es)) ∧
    (∀ u, readUpdate (.object es) = .ok u ↔ Acceptable (.object es) ∧ Tells (.object es) u) ∧
    ∀ es', (Json.object es').wellFormed = true →
      (∀ key ∈ knownKeys, (Json.object es').get? key = (Json.object es).get? key) →
      ∀ u, readUpdate (.object es') = .ok u ↔ readUpdate (.object es) = .ok u := by
  have distinct := Json.nodup_of_wellFormed wellFormed
  have told : ∀ u, readUpdate (.object es) = .ok u ↔
      Acceptable (.object es) ∧ Tells (.object es) u := by
    intro u
    rw [readUpdate_eq_ok_iff distinct]
    constructor
    · rintro ⟨r, read, hu⟩
      exact ⟨read.acceptable hu, read.tells hu⟩
    · rintro ⟨acceptable, tells⟩
      exact acceptable.exists_readFrom tells (tells.isFinite wellFormed)
  refine ⟨?_, told, fun es' wellFormed' same u => ?_⟩
  · constructor
    · rintro ⟨u, hu⟩
      exact ((told u).mp hu).1
    · intro acceptable
      obtain ⟨u, tells⟩ := acceptable.exists_tells
      exact ⟨u, (told u).mpr ⟨acceptable, tells⟩⟩
  · rw [readUpdate_eq_ok_iff distinct, readUpdate_eq_ok_iff (Json.nodup_of_wellFormed wellFormed')]
    simp only [ReadFrom.congr same]

/-! ### A sample -/

namespace Sample

/-- A row with numbers at or beyond the ends of 32 bits, a whole number as its share, both second
names and a key that is none of a row. -/
def entries : List (String × Json) :=
  [("active", .integer (-1)), ("bank", .string "physics"), ("def_bank", .string ""),
   ("def_project", .string "*"), ("fairshare", .integer 1),
   ("max_active_jobs", .integer 9223372036854775807), ("max_running_jobs", .integer 4294967296),
   ("notes", .array [.null, .boolean true]), ("userid", .integer 4294967295)]

end Sample

/-- The sample is accepted, and without the other key it stands for the same update. -/
theorem sample_acceptance : ∃ u, readUpdate (.object Sample.entries) = .ok u ∧
    readUpdate (.object (Sample.entries.filter (·.1 ≠ "notes"))) = .ok u ∧
    u.key = ⟨4294967295, "physics"⟩ ∧ u.defaultBank = "physics" ∧
    u.terms.runLimit = .capped 4294967295 ∧ u.terms.activeLimit = some 4294967295 ∧
    u.terms.defaultProject = none := by
  have wellFormed : (Json.object Sample.entries).wellFormed = true := by decide +kernel
  have acceptable : Acceptable (.object Sample.entries) :=
    { userid := ⟨_, rfl, by decide, by decide⟩
      bank := ⟨_, rfl, by decide⟩
      defaultBank := ⟨_, .inr ⟨rfl, rfl⟩⟩
      fairshare := .inl ⟨_, rfl⟩
      maxRunningJobs := ⟨_, rfl, by decide, by decide⟩
      maxActiveJobs := ⟨_, rfl, by decide, by decide⟩
      active := ⟨_, rfl, by decide, by decide⟩
      queues := .inl rfl
      projects := .inl rfl
      defaultProject := Json.exists_optionUnder_iff.mp ⟨some "*", .inl (.inr ⟨rfl, rfl⟩)⟩ }
  have wellFormed' : (Json.object (Sample.entries.filter (·.1 ≠ "notes"))).wellFormed = true := by
    decide +kernel
  have same : ∀ key ∈ knownKeys, (Json.object (Sample.entries.filter (·.1 ≠ "notes"))).get? key =
      (Json.object Sample.entries).get? key := by
    simp only [knownKeys_eq, List.forall_mem_cons, List.not_mem_nil, false_imp_iff, implies_true,
      and_true]
    exact ⟨rfl, rfl, rfl, rfl, rfl, rfl, rfl, rfl, rfl, rfl, rfl, rfl⟩
  obtain ⟨accepted, -, others⟩ := acceptance wellFormed
  obtain ⟨u, hu⟩ := accepted.mpr acceptable
  have shown : (readUpdate (.object Sample.entries)).toOption.all (fun u =>
      u.key = ⟨4294967295, "physics"⟩ ∧ u.defaultBank = "physics" ∧
        u.terms.runLimit = .capped 4294967295 ∧ u.terms.activeLimit = some 4294967295 ∧
        u.terms.defaultProject = none) = true := by decide +kernel
  rw [hu] at shown
  exact ⟨u, hu, (others _ wellFormed' same u).mpr hu, by simpa [Except.toOption] using shown⟩

end AccountRecord

end JobAdmission

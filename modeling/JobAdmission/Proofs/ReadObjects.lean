import JobAdmission.Proofs.ReadBack
import Mathlib.Data.List.Find
import Mathlib.Data.List.Pairwise

/-!
# The objects that are read

This module proves which objects are read as a record, and as what record, once and for all
(`Fields.decode_object_eq_ok_iff`). The keys of an object are distinct, so a field is met twice
only under its two names; where none is, the object is read exactly if every field is filled. That
the entries are passed through first, in their own order, does not matter then: the value that
fills a field in is the one that was checked (`Fields.Checked`), as long as no two fields go by one
key (`Apart`). A field is filled in by the value under the one of its names that is there, or by
its default (`Fields.fill_requiredAs`, `Fields.fill_optionalAs`).
-/

namespace JobAdmission

variable {α β : Type}

/-! ### Plain values -/

namespace Decoder

variable {v : Json}

theorem integer_eq_ok_iff {low high n : Int} {expected : String} :
    integer low high expected v = .ok n ↔ v = .integer n ∧ low ≤ n ∧ n ≤ high := by
  cases v with
  | integer m =>
    rw [integer]
    split
    · rename_i range
      constructor
      · rintro ⟨⟩
        exact ⟨rfl, range⟩
      · rintro ⟨⟨⟩, -⟩
        rfl
    · rename_i range
      constructor
      · rintro ⟨⟩
      · rintro ⟨⟨⟩, range'⟩
        exact absurd range' range
  | null | boolean | float | string | array | object => simp [integer, wrongType]

theorem map_eq_ok_iff {x : Except DecodeError α} {f : α → β} {b : β} :
    x.map f = .ok b ↔ ∃ a, x = .ok a ∧ f a = b := by
  cases x with
  | error e => simp [Except.map]
  | ok a => simp [Except.map]

theorem uint32_eq_ok_iff {n : UInt32} : uint32 v = .ok n ↔ v = .ofUInt32 n := by
  constructor
  · intro h
    obtain ⟨m, hm, rfl⟩ := map_eq_ok_iff.mp h
    obtain ⟨rfl, low, high⟩ := integer_eq_ok_iff.mp hm
    simp only [UInt32.size] at high
    rw [Json.ofUInt32, UInt32.toNat_ofNat', Nat.mod_eq_of_lt (by omega), Int.toNat_of_nonneg low]
  · rintro rfl
    exact uint32_ofUInt32 n

theorem int64_eq_ok_iff {n : Int64} : int64 v = .ok n ↔ v = .ofInt64 n := by
  constructor
  · intro h
    obtain ⟨m, hm, rfl⟩ := map_eq_ok_iff.mp h
    obtain ⟨rfl, low, high⟩ := integer_eq_ok_iff.mp hm
    rw [Json.ofInt64, Int64.toInt_ofInt_of_le low (Int.lt_add_one_of_le high)]
  · rintro rfl
    exact int64_ofInt64 n

theorem string_eq_ok_iff {s : String} : string v = .ok s ↔ v = .string s := by
  cases v <;> simp [string, wrongType]

/-- A number is read from one that is written with a point or an exponent, and from an integer. -/
theorem float_eq_ok_iff {x : Binary64} :
    float v = .ok x ↔ v = .float x ∨ ∃ n, v = .integer n ∧ Binary64.ofInt n = x := by
  cases v <;> simp [float, wrongType]

theorem option_string_eq_ok_iff {s : Option String} :
    option string v = .ok s ↔ v = .ofOption .string s := by
  cases v <;> cases s <;> simp [option, string, wrongType, Json.ofOption, Except.map]

end Decoder

/-! ### Names of fields -/

/-- The keys that the column's field goes by. -/
def Column.keys (c : Column) : List String := c.name :: c.alias?.toList

/-- The fields with two names, by both of them. -/
def secondNames (columns : List Column) : List (String × String) :=
  columns.filterMap fun c => c.alias?.map fun second => (c.name, second)

theorem Column.goesBy_iff {c : Column} {key : String} : c.goesBy key = true ↔ key ∈ c.keys := by
  rw [goesBy, keys, Bool.or_eq_true, decide_eq_true_eq, decide_eq_true_eq, List.mem_cons,
    Option.mem_toList, eq_comm]

/-- No two fields go by one key, and no field has one name twice. -/
def Apart (columns : List Column) : Prop := (columns.flatMap Column.keys).Nodup

instance (columns : List Column) : Decidable (Apart columns) :=
  inferInstanceAs (Decidable (List.Nodup _))

section

variable {columns : List Column} {c c' : Column} {key : String}

/-- Of fields that are apart, a key belongs to one. -/
theorem Apart.eq (apart : Apart columns) (hc : c ∈ columns) (hc' : c' ∈ columns)
    (hk : key ∈ c.keys) (hk' : key ∈ c'.keys) : c = c' := by
  by_contra ne
  have : Std.Symm (Function.onFun List.Disjoint Column.keys) := ⟨fun _ _ h _ hk hk' => h hk' hk⟩
  exact (List.nodup_flatMap.mp apart).2.forall hc hc' ne hk hk'

theorem Apart.nodup_keys (apart : Apart columns) (hc : c ∈ columns) : c.keys.Nodup :=
  (List.nodup_flatMap.mp apart).1 c hc

/-- Under a key the field that goes by it is found. -/
theorem Apart.columnOf_eq_some_iff (apart : Apart columns) {e : String × Json} :
    columnOf columns e = some c ↔ c ∈ columns ∧ e.1 ∈ c.keys := by
  constructor
  · intro h
    exact ⟨List.mem_of_find?_eq_some h,
      Column.goesBy_iff.mp (List.find?_some (p := fun c : Column => c.goesBy e.1) h)⟩
  · rintro ⟨hc, hk⟩
    cases h : columnOf columns e with
    | none =>
      have nowhere := List.find?_eq_none.mp h c hc
      exact absurd (Column.goesBy_iff.mpr hk) nowhere
    | some c' =>
      have hk' := Column.goesBy_iff.mp (List.find?_some (p := fun c : Column => c.goesBy e.1) h)
      rw [apart.eq (List.mem_of_find?_eq_some h) hc hk' hk]

end

/-! ### Fields that are met twice -/

/-- No field is met twice in the entries. -/
def MetOnce (columns : List Column) (es : List (String × Json)) : Prop :=
  ((es.filterMap (columnOf columns)).map (·.name)).Nodup

variable {columns : List Column} {es : List (String × Json)}

/-- If entries pass, the value of each passed the check of its field, and no field was met
twice. -/
theorem of_checkEntries {seen : List String} (h : checkEntries columns seen es = .ok ())
    (distinct : seen.Nodup) :
    (∀ e ∈ es, ∀ c, columnOf columns e = some c → c.check e.2 = .ok ()) ∧
      ((es.filterMap (columnOf columns)).map (·.name) ++ seen).Nodup := by
  induction es generalizing seen with
  | nil => exact ⟨fun e he => absurd he List.not_mem_nil, distinct⟩
  | cons e es ih =>
    rw [checkEntries, ← columnOf.eq_def columns e] at h
    cases hfind : columnOf columns e with
    | none =>
      rw [hfind] at h
      obtain ⟨passes, once⟩ := ih h distinct
      rw [List.filterMap_cons_none hfind]
      refine ⟨fun e' he' c hc => ?_, once⟩
      obtain rfl | later := List.mem_cons.mp he'
      · cases hfind.symm.trans hc
      · exact passes e' later c hc
    | some c =>
      rw [hfind] at h
      simp only at h
      split at h
      · cases h
      · rename_i unseen
        cases hcheck : c.check e.2 with
        | error reason =>
          rw [hcheck] at h
          cases h
        | ok =>
          rw [hcheck] at h
          obtain ⟨passes, once⟩ := ih h (List.nodup_cons.mpr ⟨unseen, distinct⟩)
          rw [List.filterMap_cons_some hfind, List.map_cons, List.cons_append]
          refine ⟨fun e' he' c' hc' => ?_, List.nodup_middle.mp once⟩
          obtain rfl | later := List.mem_cons.mp he'
          · cases hfind.symm.trans hc'
            exact hcheck
          · exact passes e' later c' hc'

theorem checkEntries_eq_ok_iff : checkEntries columns [] es = .ok () ↔
    (∀ e ∈ es, ∀ c, columnOf columns e = some c → c.check e.2 = .ok ()) ∧ MetOnce columns es := by
  constructor
  · intro h
    have passed := of_checkEntries h List.nodup_nil
    rwa [List.append_nil] at passed
  · rintro ⟨passes, once⟩
    exact checkEntries_eq_ok passes ((List.append_nil _).symm ▸ once)

/-- The two entries are not of one field. -/
def NotOneField (columns : List Column) (e e' : String × Json) : Prop :=
  ∀ c, columnOf columns e = some c → ∀ c', columnOf columns e' = some c' → c.name ≠ c'.name

theorem metOnce_iff_pairwise : MetOnce columns es ↔ es.Pairwise (NotOneField columns) := by
  rw [MetOnce, List.nodup_iff_pairwise_ne, List.pairwise_map, List.pairwise_filterMap]
  rfl

theorem mem_secondNames {name second : String} : (name, second) ∈ secondNames columns ↔
    ∃ c ∈ columns, c.name = name ∧ c.alias? = some second := by
  simp only [secondNames, List.mem_filterMap, Option.map_eq_some_iff, Prod.mk.injEq]
  constructor
  · rintro ⟨c, hc, second', hs, hn, rfl⟩
    exact ⟨c, hc, hn, hs⟩
  · rintro ⟨c, hc, hn, hs⟩
    exact ⟨c, hc, second, hs, hn, rfl⟩

/-- Two entries of one field are one. -/
theorem MetOnce.eq (once : MetOnce columns es) {e e' : String × Json} (he : e ∈ es) (he' : e' ∈ es)
    {c : Column} (hc : columnOf columns e = some c) (hc' : columnOf columns e' = some c) :
    e = e' := by
  by_contra ne
  rw [metOnce_iff_pairwise] at once
  have : Std.Symm (NotOneField columns) := ⟨fun _ _ h c hc c' hc' => (h c' hc' c hc).symm⟩
  exact once.forall he he' ne c hc c hc' rfl

/-- Entries under both names of a field are of that field. -/
theorem MetOnce.false_of_two_names (once : MetOnce columns es) (apart : Apart columns)
    {name second : String} (names : (name, second) ∈ secondNames columns) {v w : Json}
    (hv : (name, v) ∈ es) (hw : (second, w) ∈ es) : False := by
  obtain ⟨c, hc, rfl, hs⟩ := mem_secondNames.mp names
  have keys : c.keys = [c.name, second] := by rw [Column.keys, hs, Option.toList_some]
  have same := once.eq hv hw (apart.columnOf_eq_some_iff.mpr ⟨hc, by simp [keys]⟩)
    (apart.columnOf_eq_some_iff.mpr ⟨hc, by simp [keys]⟩)
  have distinct := apart.nodup_keys hc
  rw [keys, (Prod.mk.inj same).1] at distinct
  exact absurd distinct (by simp)

/-- With distinct keys, a field is met twice only under its two names. -/
theorem metOnce_iff (apart : Apart columns) (distinct : (es.map (·.1)).Nodup) :
    MetOnce columns es ↔
      ∀ names ∈ secondNames columns, names.1 ∈ es.map (·.1) → names.2 ∉ es.map (·.1) := by
  constructor
  · rintro once ⟨name, second⟩ names first_mem second_mem
    obtain ⟨⟨_, v⟩, hv, rfl⟩ := List.mem_map.mp first_mem
    obtain ⟨⟨_, w⟩, hw, rfl⟩ := List.mem_map.mp second_mem
    exact once.false_of_two_names apart names hv hw
  · intro once
    rw [metOnce_iff_pairwise]
    have keys := List.pairwise_map.mp distinct
    refine keys.imp_of_mem fun {e e'} he he' ne c hc c' hc' same => ?_
    obtain ⟨hmem, hk⟩ := apart.columnOf_eq_some_iff.mp hc
    obtain ⟨hmem', hk'⟩ := apart.columnOf_eq_some_iff.mp hc'
    obtain rfl := apart.eq hmem hmem' List.mem_cons_self (same ▸ List.mem_cons_self)
    -- the two keys are two names of one field
    cases hs : c.alias? with
    | none =>
      simp only [Column.keys, hs, Option.toList_none, List.mem_singleton] at hk hk'
      exact ne (hk.trans hk'.symm)
    | some second =>
      have free := once (c.name, second) (mem_secondNames.mpr ⟨c, hmem, rfl, hs⟩)
      simp only [Column.keys, hs, Option.toList_some, List.mem_cons, List.not_mem_nil,
        or_false] at hk hk'
      have mem := List.mem_map_of_mem (f := (·.1)) he
      have mem' := List.mem_map_of_mem (f := (·.1)) he'
      obtain first | first := hk
      · obtain first' | second' := hk'
        · exact ne (first.trans first'.symm)
        · exact free (first ▸ mem) (second' ▸ mem')
      · obtain first' | second' := hk'
        · exact free (first' ▸ mem') (first ▸ mem)
        · exact ne (first.trans second'.symm)

/-- There is nothing under a key that is none of the object. -/
theorem Json.get?_eq_none_iff {key : String} :
    (Json.object es).get? key = none ↔ key ∉ es.map (·.1) := by
  rw [get?, Option.map_eq_none_iff, List.find?_eq_none, List.mem_map]
  simp only [decide_eq_true_eq, not_exists, not_and]

/-! ### Filling a record in -/

namespace Fields

variable {fields : Fields α} {a : α} {b : β} {row : Row} {position : ℕ}

/-- The values that fill the fields in pass the checks of the fields. -/
def Checked (fields : Fields α) : Prop :=
  ∀ es position a, fields.fill (.named es) position = .ok a →
    ∀ c ∈ fields.columns, ∀ e, es.find? (fun e => c.goesBy e.1) = some e → c.check e.2 = .ok ()

theorem fill_seq {g : Fields (α → β)} {x : Fields α} :
    (g <*> x).fill row position = .ok b ↔
      ∃ make a, g.fill row position = .ok make ∧
        x.fill row (position + g.columns.length) = .ok a ∧ make a = b := by
  show (do
    let g' ← g.fill row position
    let a ← x.fill row (position + g.columns.length)
    return g' a) = Except.ok b ↔ _
  cases hg : g.fill row position with
  | error e => simp [bind, Except.bind]
  | ok make =>
    cases hx : x.fill row (position + g.columns.length) with
    | error e => simp [bind, Except.bind]
    | ok a => simp [bind, Except.bind, pure, Except.pure]

theorem fill_map {x : Fields α} {make : α → β} :
    (make <$> x).fill row position = .ok b ↔
      ∃ a, x.fill row position = .ok a ∧ make a = b := by
  rw [show make <$> x = constant make <*> x from rfl, fill_seq]
  simp [constant]

theorem Checked.constant (a : α) : (constant a).Checked :=
  fun _ _ _ _ _ hc => absurd hc List.not_mem_nil

theorem Checked.single (f : Field α) : (single f).Checked := by
  intro es position a h c hc e he
  obtain rfl := List.mem_singleton.mp hc
  change Row.read (.named es) position f = .ok a at h
  rw [Row.read, Row.slot, he] at h
  simp only [Option.map_some] at h
  simp [Field.column, h, Except.map]

theorem Checked.seq {g : Fields (α → β)} {x : Fields α} (hg : g.Checked) (hx : x.Checked) :
    (g <*> x).Checked := by
  intro es position b h c hc e he
  obtain ⟨make, a, first, later, -⟩ := fill_seq.mp h
  obtain here | there := List.mem_append.mp hc
  · exact hg es _ make first c here e he
  · exact hx es _ a later c there e he

theorem Checked.map {x : Fields α} (make : α → β) (hx : x.Checked) : (make <$> x).Checked :=
  (Checked.constant make).seq hx

/-- An object is read as a record exactly if no field is met twice and the record is filled in
from its entries. -/
theorem Checked.decode_object_eq_ok_iff (checked : fields.Checked) (apart : Apart fields.columns)
    (kind : String) :
    fields.decode kind (.object es) = .ok a ↔
      MetOnce fields.columns es ∧ fields.fill (.named es) 0 = .ok a := by
  have unfolded : fields.decode kind (.object es) =
      (checkEntries fields.columns [] es).bind fun _ => fields.fill (.named es) 0 := rfl
  rw [unfolded]
  constructor
  · intro h
    cases passed : checkEntries fields.columns [] es with
    | error e =>
      rw [passed] at h
      cases h
    | ok =>
      rw [passed] at h
      exact ⟨(checkEntries_eq_ok_iff.mp passed).2, h⟩
  · rintro ⟨once, filled⟩
    have passed : checkEntries fields.columns [] es = .ok () := by
      refine checkEntries_eq_ok_iff.mpr ⟨fun e he c hc => ?_, once⟩
      obtain ⟨hmem, hk⟩ := apart.columnOf_eq_some_iff.mp hc
      -- the value that fills the field in is that of this entry, as there is no other one
      cases hfind : es.find? (fun e => c.goesBy e.1) with
      | none => exact absurd (Column.goesBy_iff.mpr hk) (List.find?_eq_none.mp hfind e he)
      | some e' =>
        have hk' := Column.goesBy_iff.mp
          (List.find?_some (p := fun e : String × Json => c.goesBy e.1) hfind)
        have same := once.eq he (List.mem_of_find?_eq_some hfind) hc
          (apart.columnOf_eq_some_iff.mpr ⟨hmem, hk'⟩)
        exact same ▸ checked es 0 a filled c hmem e' hfind
    rw [passed]
    exact filled

/-- An object with both names of a field is not read. -/
theorem exists_error_of_two_names (apart : Apart fields.columns) {name second : String}
    (names : (name, second) ∈ secondNames fields.columns) {v w : Json}
    (hv : (name, v) ∈ es) (hw : (second, w) ∈ es) (kind : String) :
    ∃ e, fields.decode kind (.object es) = .error e := by
  cases passed : checkEntries fields.columns [] es with
  | error e => exact ⟨e, by rw [decode, passed]; rfl⟩
  | ok =>
    have once := (checkEntries_eq_ok_iff.mp passed).2
    exact (once.false_of_two_names apart names hv hw).elim

/-! ### Filling a field in -/

section

variable {f : Field α} {decode : Decoder α} {name second : String} {default : α}

/-- The value under a field's name, or its default, fills it in. -/
theorem fill_single : (single f).fill row position = .ok a ↔
    (∃ v, row.slot position f.column = some v ∧ f.decode v = .ok a) ∨
      (row.slot position f.column = none ∧ f.default? = some a) := by
  show row.read position f = .ok a ↔ _
  rw [Row.read]
  cases row.slot position f.column with
  | some v => simp
  | none =>
    cases f.default? with
    | some b => simp
    | none => simp

/-- Under one name there is one value. -/
theorem slot_of_one_name {c : Column} (h : c.alias? = none) :
    (Row.named es).slot position c = (Json.object es).get? c.name := by
  rw [Row.slot, Json.get?]
  congr 2
  funext e
  simp [Column.goesBy, h, eq_comm]

/-- Under two names there is the value of the name that is there. -/
theorem slot_of_two_names {c : Column} (h : c.alias? = some second)
    (once : c.name ∈ es.map (·.1) → second ∉ es.map (·.1)) :
    (Row.named es).slot position c =
      ((Json.object es).get? c.name).or ((Json.object es).get? second) := by
  have goes : ∀ e : String × Json,
      c.goesBy e.1 = (decide (e.1 = c.name) || decide (e.1 = second)) := by
    intro e
    simp [Column.goesBy, h, eq_comm]
  by_cases first : c.name ∈ es.map (·.1)
  · have absent := once first
    rw [Json.get?_eq_none_iff.mpr absent, Option.or_none, Row.slot, Json.get?]
    refine congrArg _ (List.find?_congr fun e he => ?_)
    have other : e.1 ≠ second := fun same => absent (same ▸ List.mem_map_of_mem he)
    simp [goes, other]
  · rw [Json.get?_eq_none_iff.mpr first, Option.none_or, Row.slot, Json.get?]
    refine congrArg _ (List.find?_congr fun e he => ?_)
    have other : e.1 ≠ c.name := fun same => first (same ▸ List.mem_map_of_mem he)
    simp [goes, other]

/-- A field without a default is filled in by the value under its name. -/
theorem fill_required : (required name decode).fill (.named es) position = .ok a ↔
    ∃ v, (Json.object es).get? name = some v ∧ decode v = .ok a := by
  rw [required, fill_single, slot_of_one_name rfl]
  simp [Field.column]

/-- A field with a default is filled in by the value under its name, or else by its default. -/
theorem fill_optional : (optional name default decode).fill (.named es) position = .ok a ↔
    (∃ v, (Json.object es).get? name = some v ∧ decode v = .ok a) ∨
      ((Json.object es).get? name = none ∧ default = a) := by
  rw [optional, fill_single, slot_of_one_name rfl]
  simp [Field.column]

/-- A field with two names and without a default is filled in by the value under the name that is
there. -/
theorem fill_requiredAs (once : name ∈ es.map (·.1) → second ∉ es.map (·.1)) :
    (requiredAs name second decode).fill (.named es) position = .ok a ↔
      ∃ v, ((Json.object es).get? name).or ((Json.object es).get? second) = some v ∧
        decode v = .ok a := by
  rw [requiredAs, fill_single, slot_of_two_names rfl once]
  simp [Field.column]

/-- A field with two names and a default is filled in by the value under the name that is there,
or else by its default. -/
theorem fill_optionalAs (once : name ∈ es.map (·.1) → second ∉ es.map (·.1)) :
    (optionalAs name second default decode).fill (.named es) position = .ok a ↔
      (∃ v, ((Json.object es).get? name).or ((Json.object es).get? second) = some v ∧
        decode v = .ok a) ∨
      (((Json.object es).get? name).or ((Json.object es).get? second) = none ∧ default = a) := by
  rw [optionalAs, fill_single, slot_of_two_names rfl once]
  simp [Field.column]

end

end Fields

end JobAdmission

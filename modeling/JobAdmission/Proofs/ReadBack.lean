import JobAdmission.Record.Fields
import Mathlib.Data.List.Forall2
import Mathlib.Data.List.Nodup

/-!
# Written data reads back

This module proves that a decoder gives back what was written: for plain values, sequences and
optional values one by one, and for records once and for all. The values of a record's fields
fill it in (`Fields.Fills`) if each field's decoder gives back the field's own value, and this is
put together field by field, as the record's description is. A record that its values fill in is
read from the sequence of the values (`Fields.Fills.decode_array`), and from an object that holds
them under keys by which the fields go, each field by its own key and by no other one
(`Fields.Fills.decode_object`). The entries of the object may stand in any order: what is written
is sorted by keys, and the fields are not.
-/

namespace JobAdmission

variable {α β : Type}

/-! ### Plain values -/

namespace Decoder

theorem integer_eq_ok {low high n : Int} (range : low ≤ n ∧ n ≤ high) (expected : String) :
    integer low high expected (.integer n) = .ok n := if_pos range

@[simp] theorem uint32_ofUInt32 (n : UInt32) : uint32 (.ofUInt32 n) = .ok n := by
  have range : (0 : Int) ≤ n.toNat ∧ (n.toNat : Int) ≤ UInt32.size - 1 := by
    have := n.toNat_lt
    simp only [UInt32.size]
    omega
  rw [uint32, Json.ofUInt32, integer_eq_ok range]
  simp [Except.map]

@[simp] theorem word64_ofUInt64 (expected : String) (n : UInt64) :
    word64 expected (.ofUInt64 n) = .ok n := by
  have range : (0 : Int) ≤ n.toNat ∧ (n.toNat : Int) ≤ UInt64.size - 1 := by
    have := n.toNat_lt
    simp only [UInt64.size]
    omega
  rw [word64, Json.ofUInt64, integer_eq_ok range]
  simp [Except.map]

@[simp] theorem int64_ofInt64 (n : Int64) : int64 (.ofInt64 n) = .ok n := by
  have range : Int64.minValue.toInt ≤ n.toInt ∧ n.toInt ≤ Int64.maxValue.toInt :=
    ⟨n.minValue_le_toInt, n.toInt_le⟩
  rw [int64, Json.ofInt64, integer_eq_ok range]
  simp [Except.map]

theorem float_ofFloat {x : Binary64} (finite : x.isFinite = true) : float (.ofFloat x) = .ok x := by
  simp [Json.ofFloat, finite, float]

@[simp] theorem boolean_boolean (b : Bool) : boolean (.boolean b) = .ok b := rfl

@[simp] theorem string_string (s : String) : string (.string s) = .ok s := rfl

/-! ### Sequences and optional values -/

theorem list_array {item : Decoder α} {encode : α → Json} {as : List α}
    (h : ∀ a ∈ as, item (encode a) = .ok a) : list item (.array (as.map encode)) = .ok as := by
  show (as.map encode).mapM item = .ok as
  induction as with
  | nil => rfl
  | cons a as ih =>
    rw [List.map_cons, List.mapM_cons, h a List.mem_cons_self,
      ih fun a' ha' => h a' (List.mem_cons_of_mem a ha')]
    rfl

@[simp] theorem list_ofStrings (ss : List String) : list string (.ofStrings ss) = .ok ss :=
  list_array fun s _ => string_string s

@[simp] theorem option_ofOption_string (s : Option String) :
    option string (.ofOption .string s) = .ok s := by
  cases s with
  | none => rfl
  | some s => rfl

end Decoder

/-! ### Filling a record in -/

namespace Row

/-- The row holds these values in the slots of consecutive fields, from a position on. -/
def Holds (row : Row) : ℕ → List Column → List Json → Prop
  | _, [], [] => True
  | position, c :: cs, v :: vs => row.slot position c = some v ∧ row.Holds (position + 1) cs vs
  | _, _, _ => False

theorem holds_append {row : Row} {cs ds : List Column} {vs ws : List Json}
    (length : cs.length = vs.length) {position : ℕ} :
    row.Holds position (cs ++ ds) (vs ++ ws) ↔
      row.Holds position cs vs ∧ row.Holds (position + cs.length) ds ws := by
  induction cs generalizing vs position with
  | nil =>
    obtain rfl := List.eq_nil_of_length_eq_zero length.symm
    simp [Holds]
  | cons c cs ih =>
    cases vs with
    | nil => cases length
    | cons v vs =>
      have next : position + (c :: cs).length = position + 1 + cs.length := by
        simp only [List.length_cons]
        omega
      rw [List.cons_append, List.cons_append, Holds, Holds, ih (Nat.succ.inj length), and_assoc,
        next]

/-- A sequence holds its elements. -/
theorem holds_positional (expected : String) {columns : List Column} (before : List Json)
    {values : List Json} (length : columns.length = values.length) :
    (positional expected (before ++ values)).Holds before.length columns values := by
  induction columns generalizing before values with
  | nil =>
    obtain rfl := List.eq_nil_of_length_eq_zero length.symm
    trivial
  | cons c columns ih =>
    cases values with
    | nil => cases length
    | cons v values =>
      refine ⟨by simp [slot], ?_⟩
      have later := ih (before ++ [v]) (Nat.succ.inj length)
      rwa [List.append_assoc, List.length_append] at later

/-- An object holds the values that are found in it under the names of the fields. -/
theorem holds_named {es : List (String × Json)} {columns : List Column} {values : List Json}
    (found : List.Forall₂ (fun c v => (es.find? fun e => c.goesBy e.1).map (·.2) = some v)
      columns values) (position : ℕ) : (named es).Holds position columns values := by
  induction found generalizing position with
  | nil => trivial
  | cons h _ ih => exact ⟨h, ih (position + 1)⟩

end Row

namespace Fields

/-- These values fill a record in: each of them passes the check of its field, and from a row
that holds them the fields make up this record. -/
structure Fills (fields : Fields α) (values : List Json) (a : α) : Prop where
  /-- Each value passes the check of its field. -/
  checks : List.Forall₂ (fun c v => c.check v = .ok ()) fields.columns values
  /-- A row that holds the values makes up the record. -/
  fill : ∀ (row : Row) (position : ℕ), row.Holds position fields.columns values →
    fields.fill row position = .ok a

variable {f : Field α} {v : Json} {a : α}

theorem Fills.constant (a : α) : (constant a).Fills [] a where
  checks := .nil
  fill _ _ _ := rfl

/-- A value that the field's decoder gives back fills the field in. -/
theorem Fills.single (h : f.decode v = .ok a) : (single f).Fills [v] a where
  checks := .cons (by simp [Field.column, h, Except.map]) .nil
  fill row position holds := by
    show row.read position f = .ok a
    rw [Row.read, holds.1]
    exact h

/-- The values of further fields are appended. -/
theorem Fills.seq {g : Fields (α → β)} {x : Fields α} {vs ws : List Json} {make : α → β}
    (hg : g.Fills vs make) (hx : x.Fills ws a) : (g <*> x).Fills (vs ++ ws) (make a) where
  checks := List.rel_append hg.checks hx.checks
  fill row position holds := by
    obtain ⟨first, later⟩ := (Row.holds_append hg.checks.length_eq).mp holds
    show (do
      let g ← g.fill row position
      let a ← x.fill row (position + _)
      return g a) = Except.ok (make a)
    rw [hg.fill row position first, hx.fill row _ later]
    rfl

theorem Fills.map {x : Fields α} {vs : List Json} (make : α → β) (hx : x.Fills vs a) :
    (make <$> x).Fills vs (make a) := (Fills.constant make).seq hx

end Fields

/-! ### Keys -/

/-- The field that goes by the key of an entry, if there is one. -/
def columnOf (columns : List Column) (e : String × Json) : Option Column :=
  columns.find? fun c => c.goesBy e.1

/-- The fields go by these keys: each field by its own key and by no other one. -/
def GoBy (columns : List Column) (keys : List String) : Prop :=
  columns.length = keys.length ∧ (columns.map (·.name)).Nodup ∧
    ∀ (i : Fin columns.length) (j : Fin keys.length),
      columns[i].goesBy keys[j] = decide (i.val = j.val)

instance (columns : List Column) (keys : List String) : Decidable (GoBy columns keys) :=
  inferInstanceAs (Decidable (_ ∧ _ ∧ _))

namespace GoBy

variable {columns : List Column} {entries es : List (String × Json)} {i : ℕ}

/-- A field goes by the key of an entry exactly if the entry is its own one. -/
theorem goesBy (h : GoBy columns (entries.map (·.1))) {j : ℕ} (hi : i < columns.length)
    (hj : j < entries.length) : columns[i].goesBy entries[j].1 = decide (i = j) := by
  have own := h.2.2 ⟨i, hi⟩ ⟨j, by simpa using hj⟩
  simpa using own

theorem length_eq (h : GoBy columns (entries.map (·.1))) : columns.length = entries.length := by
  simpa using h.1

/-- Under the key of an entry its own field is found. -/
theorem columnOf_eq (h : GoBy columns (entries.map (·.1))) (hi : i < columns.length)
    (hi' : i < entries.length) : columnOf columns entries[i] = some columns[i] := by
  rw [columnOf, List.find?_eq_some_iff_getElem]
  refine ⟨by simp [h.goesBy hi hi'], i, hi, rfl, fun j hj => ?_⟩
  have other := h.goesBy (by omega : j < columns.length) hi'
  rw [other]
  simp [Nat.ne_of_lt hj]

/-- The fields that are found under the keys of all entries are all fields. -/
theorem filterMap_columnOf (h : GoBy columns (entries.map (·.1))) :
    entries.filterMap (columnOf columns) = columns := by
  have found : entries.map (columnOf columns) = columns.map some := by
    refine List.ext_getElem (by simpa using h.length_eq.symm) fun i hi hi' => ?_
    simp only [List.length_map] at hi hi'
    rw [List.getElem_map, List.getElem_map, h.columnOf_eq hi' hi]
  calc
    _ = (entries.map (columnOf columns)).filterMap id := by
      rw [List.filterMap_map, Function.id_comp]
    _ = columns := by rw [found, List.filterMap_map, Function.id_comp, List.filterMap_some]

/-- In whatever order the entries stand, under the names of a field its own entry is found. -/
theorem find?_entry (h : GoBy columns (entries.map (·.1))) (same : es.Perm entries)
    (hi : i < columns.length) (hi' : i < entries.length) :
    es.find? (fun e => columns[i].goesBy e.1) = some entries[i] := by
  cases hfind : es.find? fun e => columns[i].goesBy e.1 with
  | none =>
    have nowhere := List.find?_eq_none.mp hfind entries[i]
      (same.mem_iff.mpr (List.getElem_mem hi'))
    simp [h.goesBy hi hi'] at nowhere
  | some e =>
    obtain ⟨j, hj, rfl⟩ := List.getElem_of_mem (same.mem_iff.mp (List.mem_of_find?_eq_some hfind))
    have own := List.find?_some hfind
    simp only [h.goesBy hi hj, decide_eq_true_eq] at own
    subst own
    rfl

/-- The keys are distinct, as the fields are told apart by them. -/
theorem nodup (h : GoBy columns (entries.map (·.1))) : (entries.map (·.1)).Nodup := by
  rw [List.nodup_iff_injective_getElem]
  intro i j same
  have hi : i.val < entries.length := by simpa using i.isLt
  have hj : j.val < entries.length := by simpa using j.isLt
  have keys : entries[i.val].1 = entries[j.val].1 := by simpa using same
  have hi' : i.val < columns.length := by
    rw [h.length_eq]
    exact hi
  have own := h.goesBy hi' hj
  rw [← keys, h.goesBy hi' hi] at own
  exact Fin.ext (by simpa using own)

end GoBy

/-! ### Written objects -/

namespace Json

theorem insertNew_perm {key : String} {es : List (String × Json)} (new : key ∉ es.map (·.1))
    (v : Json) : (insertNew key v es).Perm ((key, v) :: es) := by
  induction es with
  | nil => exact .refl _
  | cons e es ih =>
    obtain ⟨k, w⟩ := e
    simp only [List.map_cons, List.mem_cons, not_or] at new
    rw [insertNew, if_neg new.1]
    split
    · exact .refl _
    · exact ((ih new.2).cons (k, w)).trans (.swap _ _ _)

/-- An object is written with its entries in the order of their keys. -/
theorem ofEntries_perm {entries : List (String × Json)} (distinct : (entries.map (·.1)).Nodup) :
    ∃ es, ofEntries entries = .object es ∧ es.Perm entries := by
  refine ⟨_, rfl, ?_⟩
  induction entries with
  | nil => exact .refl _
  | cons e entries ih =>
    obtain ⟨new, distinct⟩ := List.nodup_cons.mp distinct
    have same := ih distinct
    refine (insertNew_perm (fun h => new ?_) e.2).trans (same.cons e)
    exact (same.map (·.1)).mem_iff.mp h

end Json

/-! ### Reading a record -/

/-- Entries pass if the value of each passes the check of the field that is found under its key,
and no field is met twice. -/
theorem checkEntries_eq_ok {columns : List Column} {seen : List String}
    {es : List (String × Json)}
    (passes : ∀ e ∈ es, ∀ c, columnOf columns e = some c → c.check e.2 = .ok ())
    (fresh : ((es.filterMap (columnOf columns)).map (·.name) ++ seen).Nodup) :
    checkEntries columns seen es = .ok () := by
  induction es generalizing seen with
  | nil => rfl
  | cons e es ih =>
    have passes' : ∀ e' ∈ es, ∀ c, columnOf columns e' = some c → c.check e'.2 = .ok () :=
      fun e' he' => passes e' (List.mem_cons_of_mem e he')
    rw [checkEntries, ← columnOf.eq_def columns e]
    cases hfind : columnOf columns e with
    | none =>
      rw [List.filterMap_cons_none hfind] at fresh
      exact ih passes' fresh
    | some c =>
      rw [List.filterMap_cons_some hfind, List.map_cons, List.cons_append] at fresh
      obtain ⟨new, fresh⟩ := List.nodup_cons.mp fresh
      have unseen : c.name ∉ seen := fun h => new (List.mem_append_right _ h)
      have later := ih passes' (List.nodup_middle.mpr (List.nodup_cons.mpr ⟨new, fresh⟩))
      simp only [if_neg unseen, passes e List.mem_cons_self c hfind]
      exact later

namespace Fields

variable {fields : Fields α} {entries es : List (String × Json)} {values : List Json} {a : α}

/-- A record is read from the sequence of its values. -/
theorem Fills.decode_array (h : fields.Fills values a) (kind : String) :
    fields.decode kind (.array values) = .ok a := by
  have length := h.checks.length_eq
  have filled := h.fill _ 0
    (Row.holds_positional (describeElements kind fields.columns.length) [] length)
  rw [List.nil_append] at filled
  simp only [decode]
  rw [filled]
  simp [bind, Except.bind, length]

/-- A record is read from an object that holds its values under keys that its fields go by, in
whatever order. -/
theorem Fills.decode_object (h : fields.Fills (entries.map (·.2)) a)
    (goBy : GoBy fields.columns (entries.map (·.1))) (same : es.Perm entries) (kind : String) :
    fields.decode kind (.object es) = .ok a := by
  have length := goBy.length_eq
  have passed : checkEntries fields.columns [] es = .ok () := by
    refine checkEntries_eq_ok (fun e he c hc => ?_) ?_
    · obtain ⟨i, hi, rfl⟩ := List.getElem_of_mem (same.mem_iff.mp he)
      have hi' : i < fields.columns.length := length ▸ hi
      obtain rfl : fields.columns[i] = c :=
        Option.some.inj ((goBy.columnOf_eq hi' hi).symm.trans hc)
      have check := (List.forall₂_iff_get.mp h.checks).2 i hi' (by simpa using hi)
      simpa using check
    · have found := same.filterMap (columnOf fields.columns)
      rw [goBy.filterMap_columnOf] at found
      rw [List.append_nil, (found.map _).nodup_iff]
      exact goBy.2.1
  have filled : fields.fill (.named es) 0 = .ok a := by
    refine h.fill _ 0 (Row.holds_named ?_ 0)
    rw [List.forall₂_iff_get]
    refine ⟨h.checks.length_eq, fun i hi hi' => ?_⟩
    have hi' : i < entries.length := by simpa using hi'
    simp [goBy.find?_entry same hi hi']
  simp only [decode]
  rw [passed]
  exact filled

/-- A record is read from its written form, where it is written with such keys. -/
theorem Fills.decode_ofEntries (h : fields.Fills (entries.map (·.2)) a)
    (goBy : GoBy fields.columns (entries.map (·.1))) (kind : String) :
    fields.decode kind (.ofEntries entries) = .ok a := by
  obtain ⟨es, written, same⟩ := Json.ofEntries_perm goBy.nodup
  rw [written]
  exact h.decode_object goBy same kind

end Fields

end JobAdmission

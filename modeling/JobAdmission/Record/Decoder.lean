import JobAdmission.Record.Error

/-!
# Decoders

This module reads JSON data as plain values: numbers of fixed width, truth values,
texts, sequences, optional values and variants. A binary64 number is never read as
an integer, not even a whole one; an integer is read as the nearest binary64 number.
Beside each decoder stands the form in which its value is written.
-/

namespace JobAdmission

/-- Reads a value or says why not. -/
abbrev Decoder (α : Type) := Json → Except DecodeError α

namespace Decoder

/-- A value of the wrong kind. -/
def wrongType (v : Json) (expected : String) : Except DecodeError α :=
  .error (.invalidType v.found expected)

/-! ### Numbers -/

/-- An integer between two bounds, both included. -/
def integer (low high : Int) (expected : String) : Decoder Int
  | .integer n =>
    if low ≤ n ∧ n ≤ high then .ok n else .error (.invalidValue (.integer n) expected)
  | v => wrongType v expected

/-- A word of 32 bits. -/
def uint32 : Decoder UInt32 := fun v =>
  (integer 0 (UInt32.size - 1) "u32" v).map fun n => UInt32.ofNat n.toNat

/-- A word of 64 bits, under the name of its range. -/
def word64 (expected : String) : Decoder UInt64 := fun v =>
  (integer 0 (UInt64.size - 1) expected v).map fun n => UInt64.ofNat n.toNat

/-- A word of 64 bits. -/
def uint64 : Decoder UInt64 := word64 "u64"

/-- A count, of 64 bits. -/
def size : Decoder UInt64 := word64 "usize"

/-- A signed integer of 32 bits. -/
def int32 : Decoder Int32 := fun v =>
  (integer Int32.minValue.toInt Int32.maxValue.toInt "i32" v).map Int32.ofInt

/-- A signed integer of 64 bits. -/
def int64 : Decoder Int64 := fun v =>
  (integer Int64.minValue.toInt Int64.maxValue.toInt "i64" v).map Int64.ofInt

/-- A binary64 number. -/
def float : Decoder Binary64
  | .float x => .ok x
  | .integer n => .ok (.ofInt n)
  | v => wrongType v "f64"

/-! ### Other plain values -/

/-- A truth value. -/
def boolean : Decoder Bool
  | .boolean b => .ok b
  | v => wrongType v "a boolean"

/-- A text. -/
def string : Decoder String
  | .string s => .ok s
  | v => wrongType v "a string"

/-- Any value, as it is. -/
def any : Decoder Json := fun v => .ok v

/-- A sequence of items. -/
def list (item : Decoder α) : Decoder (List α)
  | .array vs => vs.mapM item
  | v => wrongType v "a sequence"

/-- A value that may be `null`. -/
def option (item : Decoder α) : Decoder (Option α)
  | .null => .ok none
  | v => (item v).map some

/-! ### Variants -/

/-- A variant: a value of its own, or one that is read from what it carries. -/
inductive Variant (α : Type) where
  /-- A variant that carries nothing. -/
  | plain (value : α)
  /-- A variant that carries a value. -/
  | carrying (decode : Decoder α)

/-- Nothing but `null`. -/
def unit : Decoder Unit
  | .null => .ok ()
  | v => wrongType v "unit"

/-- The variant with a name. -/
def named (variants : List (String × Variant α)) (name : String) :
    Except DecodeError (Variant α) :=
  match variants.find? fun v => v.1 = name with
  | some v => .ok v.2
  | none => .error (.unknownVariant name (variants.map (·.1)))

/-- One of some variants: a plain one is its name, or an object with its name as the
only key and `null` under it; a carrying one is an object with what it carries. -/
def variant (variants : List (String × Variant α)) : Decoder α
  | .string name => do
    match ← named variants name with
    | .plain a => .ok a
    | .carrying _ => .error (.invalidType .bareVariant "newtype variant")
  | .object [(name, content)] => do
    match ← named variants name with
    | .plain a => (unit content).map fun _ => a
    | .carrying decode => decode content
  | .object _ => .error (.invalidValue .map "map with a single key")
  | v => wrongType v "string or map"

end Decoder

/-! ### Written forms -/

namespace Json

/-- A word of 32 bits. -/
def ofUInt32 (n : UInt32) : Json := .integer n.toNat

/-- A word of 64 bits. -/
def ofUInt64 (n : UInt64) : Json := .integer n.toNat

/-- A signed integer of 64 bits. -/
def ofInt64 (n : Int64) : Json := .integer n.toInt

/-- A number: one that is not finite has no written form and stands as `null`. -/
def ofFloat (x : Binary64) : Json := if x.isFinite then .float x else .null

/-- A sequence of texts. -/
def ofStrings (ss : List String) : Json := .array (ss.map .string)

/-- A value that may be absent. -/
def ofOption (encode : α → Json) : Option α → Json
  | none => .null
  | some a => encode a

end Json

end JobAdmission

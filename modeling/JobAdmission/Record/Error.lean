import JobAdmission.Json.Writer
import JobAdmission.Text.Quoted

/-!
# What is wrong with data

This module holds the reasons for which data is refused as a record, a field or a
variant, and their wording (`DecodeError.message`).
-/

namespace JobAdmission

/-- What stood where something else was expected. -/
inductive Found where
  /-- The value `null`. -/
  | null
  /-- A truth value. -/
  | boolean (value : Bool)
  /-- An integer. -/
  | integer (value : Int)
  /-- A binary64 number. -/
  | float (value : Binary64)
  /-- A text. -/
  | string (value : String)
  /-- A sequence. -/
  | sequence
  /-- An object. -/
  | map
  /-- The bare name of a variant that carries a value. -/
  | bareVariant
  deriving DecidableEq, Repr

/-- The kind of a value, with the value itself where a message shows it. -/
def Json.found : Json → Found
  | .null => .null
  | .boolean b => .boolean b
  | .integer n => .integer n
  | .float x => .float x
  | .string s => .string s
  | .array _ => .sequence
  | .object _ => .map

/-- The wording of what was found. -/
def Found.describe : Found → String
  | .null => "null"
  | .boolean b => "boolean `" ++ (if b then "true" else "false") ++ "`"
  | .integer n => "integer `" ++ toString n ++ "`"
  | .float x => "floating point `" ++ Json.floatFormat.text x ++ "`"
  | .string s => "string " ++ Text.quoted s
  | .sequence => "sequence"
  | .map => "map"
  | .bareVariant => "unit variant"

/-- Why data is refused. -/
inductive DecodeError where
  /-- A value of another kind was expected. -/
  | invalidType (found : Found) (expected : String)
  /-- The kind is right, and the value is out of range. -/
  | invalidValue (found : Found) (expected : String)
  /-- A sequence has a wrong number of elements. -/
  | invalidLength (length : Nat) (expected : String)
  /-- An object lacks a field that has no default. -/
  | missingField (name : String)
  /-- An object has a field twice, be it under its two names. -/
  | duplicateField (name : String)
  /-- A variant has none of the known names. -/
  | unknownVariant (name : String) (known : List String)
  deriving DecidableEq, Repr

/-- The names of all variants in the wording of a message. -/
def DecodeError.oneOf (names : List String) : String :=
  "one of " ++ ", ".intercalate (names.map fun n => "`" ++ n ++ "`")

/-- The wording of a refusal. -/
def DecodeError.message : DecodeError → String
  | .invalidType found expected => "invalid type: " ++ found.describe ++ ", expected " ++ expected
  | .invalidValue found expected =>
    "invalid value: " ++ found.describe ++ ", expected " ++ expected
  | .invalidLength length expected =>
    "invalid length " ++ toString length ++ ", expected " ++ expected
  | .missingField name => "missing field `" ++ name ++ "`"
  | .duplicateField name => "duplicate field `" ++ name ++ "`"
  | .unknownVariant name known =>
    "unknown variant `" ++ name ++ "`, expected " ++ oneOf known

end JobAdmission

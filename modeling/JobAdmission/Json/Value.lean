import JobAdmission.Numeric.Binary64

/-!
# JSON data

This module holds the data that records, job arguments and configurations are read
from. An object is a list of entries. As read from a text it has the entries of the
text, in its order and with its repetitions; in *normal form* it has one entry per
key, the last one of the text, in ascending order of keys (`Json.normalize`).
Strings are ordered by code points, which is also the order of their UTF-8 bytes.
-/

namespace JobAdmission

/-- JSON data. A number is an integer or a binary64 number, and the two are told
apart: `1` is an integer and `1.0` is not. -/
inductive Json where
  /-- The value `null`. -/
  | null
  /-- A truth value. -/
  | boolean (value : Bool)
  /-- An integer of 64 bits, with or without a sign. -/
  | integer (value : Int)
  /-- Any other number. -/
  | float (value : Binary64)
  /-- A text. -/
  | string (value : String)
  /-- A sequence. -/
  | array (values : List Json)
  /-- An object, as the list of its entries. -/
  | object (entries : List (String × Json))
  deriving Repr

namespace Json

/-! ### Entries in normal form -/

/-- Puts an entry before all entries with greater keys, unless its key is there. -/
def insertNew (key : String) (value : Json) : List (String × Json) → List (String × Json)
  | [] => [(key, value)]
  | (k, v) :: es =>
    if key = k then (k, v) :: es
    else if key < k then (key, value) :: (k, v) :: es
    else (k, v) :: insertNew key value es

mutual

/-- The value with all objects in normal form. -/
def normalize : Json → Json
  | .null => .null
  | .boolean b => .boolean b
  | .integer n => .integer n
  | .float x => .float x
  | .string s => .string s
  | .array vs => .array (normalizeValues vs)
  | .object es => .object (normalizeEntries es)

/-- Every value of a sequence in normal form. -/
def normalizeValues : List Json → List Json
  | [] => []
  | v :: vs => v.normalize :: normalizeValues vs

/-- Entries in normal form: of two entries with one key the later one stays. -/
def normalizeEntries : List (String × Json) → List (String × Json)
  | [] => []
  | (k, v) :: es => insertNew k v.normalize (normalizeEntries es)

end

/-- The object with some entries, whose values are in normal form already. -/
def ofEntries (entries : List (String × Json)) : Json :=
  .object (entries.foldr (fun e es => insertNew e.1 e.2 es) [])

/-- The value under a key of an object. -/
def get? (key : String) : Json → Option Json
  | .object es => (es.find? fun e => e.1 = key).map (·.2)
  | _ => none

/-- The text of a string. -/
def asString? : Json → Option String
  | .string s => some s
  | _ => none

end Json

end JobAdmission

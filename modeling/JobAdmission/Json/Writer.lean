import JobAdmission.Json.Value
import JobAdmission.Numeric.Shortest

/-!
# Writing JSON

This module writes JSON data as text, without spaces.
-/

namespace JobAdmission.Json

/-- Numbers keep a point or an exponent, so that they read back as no integers: the
digits are the fewest that read back, positional from `0.00001` up to sixteen digits
before the point. -/
def floatFormat : FloatFormat where
  minPositional := -5
  maxPositional := 15

/-- The text of one character of a string. -/
def escaped (c : Char) : List Char :=
  if c = '"' then ['\\', '"']
  else if c = '\\' then ['\\', '\\']
  else if c = '\n' then ['\\', 'n']
  else if c = '\r' then ['\\', 'r']
  else if c = '\t' then ['\\', 't']
  else if c = '\x08' then ['\\', 'b']
  else if c = '\x0c' then ['\\', 'f']
  else if c.toNat < 0x20 then
    ['\\', 'u', '0', '0', Nat.digitChar (c.toNat / 16), Nat.digitChar (c.toNat % 16)]
  else [c]

/-- The text of a string. -/
def renderString (s : String) : String :=
  "\"" ++ String.ofList (s.toList.flatMap escaped) ++ "\""

mutual

/-- The text of a value. -/
def render : Json → String
  | .null => "null"
  | .boolean b => if b then "true" else "false"
  | .integer n => toString n
  | .float x => floatFormat.text x
  | .string s => renderString s
  | .array vs => "[" ++ ",".intercalate (renderValues vs) ++ "]"
  | .object es => "\x7b" ++ ",".intercalate (renderEntries es) ++ "\x7d"

/-- The texts of values. -/
def renderValues : List Json → List String
  | [] => []
  | v :: vs => v.render :: renderValues vs

/-- The texts of entries. -/
def renderEntries : List (String × Json) → List String
  | [] => []
  | (k, v) :: es => (renderString k ++ ":" ++ v.render) :: renderEntries es

end

end JobAdmission.Json

import JobAdmission.Json.Token

/-!
# Reading JSON

This module reads a JSON text. Arrays and objects may nest to a fixed depth, which
is what the reader's recursion is over; the number of tokens bounds the number of
values in one array or object. A value whose content does not matter can be passed
over, which asks less of it.
-/

namespace JobAdmission.Json

/-- Arrays and objects nest at most this deep; the outermost counts as one. -/
def maxDepth : Nat := 127

/-- The items of a sequence up to its closing token, separated by commas. The bound
is on their number. -/
def itemsUntil (isClose : Token → Bool) (item : List Token → Option (α × List Token)) :
    Nat → List Token → Option (List α × List Token)
  | 0, _ => none
  | bound + 1, ts => do
    let (x, ts) ← item ts
    match ts with
    | .comma :: ts => do
      let (xs, ts) ← itemsUntil isClose item bound ts
      return (x :: xs, ts)
    | t :: ts => if isClose t then some ([x], ts) else none
    | [] => none

/-- An entry of an object, given how to read its value. -/
def entry (value : List Token → Option (Json × List Token)) :
    List Token → Option ((String × Json) × List Token)
  | .string key :: .colon :: ts => (value ts).map fun r => ((key, r.1), r.2)
  | _ => none

/-- The token closes an array. -/
def Token.closesArray : Token → Bool
  | .closeArray => true
  | _ => false

/-- The token closes an object. -/
def Token.closesObject : Token → Bool
  | .closeObject => true
  | _ => false

/-- The value at the front, with at most `depth` nested arrays and objects, each of
at most `bound` parts. -/
def value (bound : Nat) : Nat → List Token → Option (Json × List Token)
  | _, .scalar v :: ts => some (v, ts)
  | _, .string s :: ts => some (.string s, ts)
  | _ + 1, .openArray :: .closeArray :: ts => some (.array [], ts)
  | _ + 1, .openObject :: .closeObject :: ts => some (.object [], ts)
  | depth + 1, .openArray :: ts =>
    (itemsUntil Token.closesArray (value bound depth) bound ts).map fun r => (.array r.1, r.2)
  | depth + 1, .openObject :: ts =>
    (itemsUntil Token.closesObject (entry (value bound depth)) bound ts).map
      fun r => (.object r.1, r.2)
  | _, _ => none

/-- The token, with some value in place of one that there is none of. -/
def Token.settled : Token → Token
  | .halfPair => .string ""
  | .hugeNumber => .scalar .null
  | t => t

/-- What follows the value at the front, which may nest to any depth and hold strings
and numbers that have no value. -/
def passOver (ts : List Token) : Option (List Token) :=
  (value ts.length ts.length (ts.map Token.settled)).map fun r =>
    ts.drop (ts.length - r.2.length)

/-- The value of a text, with the entries of its objects as they stand in it; nothing
if the text is not well-formed. -/
def read? (text : String) : Option Json :=
  let ts := Token.ofText text.toList
  match value ts.length maxDepth ts with
  | some (v, []) => some v
  | _ => none

end JobAdmission.Json

import JobAdmission.Json.Reader
import JobAdmission.Record.Fields

/-!
# Records in texts

This module reads a record from a JSON text (`Fields.readText`). The text is read from
front to back, and the first thing that is wrong with it counts: that it is no longer
well-formed, that a sequence goes on after the last field, or that data is refused.
Data is refused as early as may be: a field met for the second time at its name, and a
sequence or an object at its opening, if its field takes no such thing. A value under
an unknown name is passed over.

The fields of such a record take plain values or sequences that hold any values.
-/

namespace JobAdmission

open Json (Token)

/-- Why a text is refused as a record. -/
inductive TextError where
  /-- The text is not well-formed. -/
  | malformed
  /-- A sequence goes on after the last field. -/
  | leftOver
  /-- Data is refused. -/
  | data (reason : DecodeError)
  deriving DecidableEq, Repr

/-! ### Values of fields -/

/-- The empty value that starts with a token and goes on after it. -/
def opened? : Token → Option Json
  | .openArray => some (.array [])
  | .openObject => some (.object [])
  | _ => none

/-- Refuses a value whose kind the field does not take. -/
def Column.checkKind (c : Column) (v : Json) : Except DecodeError Unit :=
  match c.check v with
  | .error (.invalidType found expected) =>
    if found = v.found then .error (.invalidType found expected) else .ok ()
  | _ => .ok ()

/-- The field's value at the front and what follows it. -/
def Column.read (c : Column) (ts : List Token) : Except TextError (Json × List Token) := do
  if let some v := ts.head?.bind opened? then (c.checkKind v).mapError .data
  match Json.value ts.length (Json.maxDepth - 1) ts with
  | none => .error .malformed
  | some (v, ts) =>
    (c.check v).mapError .data
    return (v, ts)

/-! ### Objects -/

/-- What follows a colon. -/
def afterColon : List Token → Except TextError (List Token)
  | .colon :: ts => .ok ts
  | _ => .error .malformed

/-- Reads an entry into the values of the fields met so far, which are listed under
their first names, and gives what follows it. -/
def readEntry (columns : List Column) (met : List (String × Json)) :
    List Token → Except TextError (List (String × Json) × List Token)
  | .string key :: ts =>
    match columns.find? fun c => c.goesBy key with
    | none => do
      let ts ← afterColon ts
      match Json.passOver ts with
      | none => .error .malformed
      | some ts => .ok (met, ts)
    | some c =>
      if met.any fun e => e.1 = c.name then .error (.data (.duplicateField c.name))
      else do
        let ts ← afterColon ts
        let (v, ts) ← c.read ts
        return ((c.name, v) :: met, ts)
  | _ => .error .malformed

/-- Reads the entries up to the closing brace, at least one. The bound is on their
number. -/
def readEntries (columns : List Column) :
    Nat → List (String × Json) → List Token → Except TextError (List (String × Json) × List Token)
  | 0, _, _ => .error .malformed
  | bound + 1, met, ts => do
    match ← readEntry columns met ts with
    | (met, .closeObject :: ts) => return (met, ts)
    | (met, .comma :: ts) => readEntries columns bound met ts
    | _ => .error .malformed

/-! ### Sequences -/

/-- Reads the elements that are left for some fields, each after a comma, up to the
closing bracket. -/
def readElements : List Column → List Token → Except TextError (List Json × List Token)
  | _, .closeArray :: ts => .ok ([], ts)
  | [], .comma :: _ => .error .leftOver
  | c :: columns, .comma :: ts => do
    let (v, ts) ← c.read ts
    let (vs, ts) ← readElements columns ts
    return (v :: vs, ts)
  | _, _ => .error .malformed

/-! ### Records -/

/-- The row at the front, for a record of a kind, and what follows it. -/
def readRow (columns : List Column) (kind : String) (ts : List Token) :
    Except TextError (Row × List Token) := do
  let positional := Row.positional (describeElements kind columns.length)
  match ts with
  | .openObject :: .closeObject :: ts => return (.named [], ts)
  | .openObject :: ts =>
    let (entries, ts) ← readEntries columns ts.length [] ts
    return (.named entries, ts)
  | .openArray :: .closeArray :: ts => return (positional [], ts)
  | .openArray :: ts =>
    let (values, ts) ← readElements columns (.comma :: ts)
    return (positional values, ts)
  | ts => match Json.value ts.length Json.maxDepth ts with
    | none => .error .malformed
    | some (v, _) => .error (.data (.invalidType v.found kind))

/-- Reads a text as a record of a kind. -/
def Fields.readText (fields : Fields α) (kind text : String) : Except TextError α := do
  let (row, ts) ← readRow fields.columns kind (Token.ofText text.toList)
  let a ← (fields.fill row 0).mapError .data
  match ts with
  | [] => return a
  | _ => .error .malformed

end JobAdmission

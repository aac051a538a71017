import JobAdmission.Record.Decoder

/-!
# Records

This module reads JSON data as records. A record has fields in a declared order
(`Fields`), each with a name, perhaps a second name, a decoder, and perhaps a
default. It is read from an object by name, or from a sequence by position.

An object's entries are checked in their order: an entry under an unknown name is
passed over, a second entry of one field is refused, and so is a value that its
field's decoder refuses. Then the fields are filled in declared order, and the first
one that is absent and has no default is missing. A sequence is filled in declared
order at once, and refused afterwards if elements are left over.
-/

namespace JobAdmission

/-! ### Fields -/

/-- A field of a record. -/
structure Field (α : Type) where
  /-- The name of the field. -/
  name : String
  /-- A second name under which an object may hold the field. -/
  alias? : Option String
  /-- How its value is read. -/
  decode : Decoder α
  /-- The value of an absent field; without one the field is required. -/
  default? : Option α

/-- What is checked of a field while the entries of an object are passed through. -/
structure Column where
  /-- The name of the field. -/
  name : String
  /-- The second name of the field. -/
  alias? : Option String
  /-- Refuses what the field's decoder refuses. -/
  check : Decoder Unit

/-- The column of a field. -/
def Field.column (f : Field α) : Column where
  name := f.name
  alias? := f.alias?
  check := fun v => (f.decode v).map fun _ => ()

/-- The column's field goes by this name. -/
def Column.goesBy (c : Column) (key : String) : Bool := c.name = key || c.alias? = some key

/-- Where the fields of a record are taken from. -/
inductive Row where
  /-- The entries of an object. -/
  | named (entries : List (String × Json))
  /-- The elements of a sequence, for a record of this description. -/
  | positional (expected : String) (values : List Json)

/-- The value of the field at a declared position, if there is one. -/
def Row.slot (position : Nat) (c : Column) : Row → Option Json
  | .named entries => (entries.find? fun e => c.goesBy e.1).map (·.2)
  | .positional _ values => values[position]?

/-- The refusal of a row that lacks the required field at a declared position. -/
def Row.absent (position : Nat) (name : String) : Row → DecodeError
  | .named _ => .missingField name
  | .positional expected _ => .invalidLength position expected

/-- The value of a field at its declared position. -/
def Row.read (row : Row) (position : Nat) (f : Field α) : Except DecodeError α :=
  match row.slot position f.column with
  | some v => f.decode v
  | none => match f.default? with
    | some a => .ok a
    | none => .error (row.absent position f.name)

/-- Consecutive fields that make up a value. -/
structure Fields (α : Type) where
  /-- The columns of the fields, in declared order. -/
  columns : List Column
  /-- The value from a row, given the position of the first of these fields. -/
  fill : Row → Nat → Except DecodeError α

namespace Fields

/-- One field. -/
def single (f : Field α) : Fields α := ⟨[f.column], fun row position => row.read position f⟩

/-- A field without a default. -/
def required (name : String) (decode : Decoder α) : Fields α :=
  single ⟨name, none, decode, none⟩

/-- A field without a default and with a second name. -/
def requiredAs (name second : String) (decode : Decoder α) : Fields α :=
  single ⟨name, some second, decode, none⟩

/-- A field with a default. -/
def optional (name : String) (default : α) (decode : Decoder α) : Fields α :=
  single ⟨name, none, decode, some default⟩

/-- A field with a default and a second name. -/
def optionalAs (name second : String) (default : α) (decode : Decoder α) : Fields α :=
  single ⟨name, some second, decode, some default⟩

/-- A value made of no field. -/
def constant (a : α) : Fields α := ⟨[], fun _ _ => .ok a⟩

/-- The fields of a function and then those of its argument. -/
def append (f : Fields (α → β)) (x : Fields α) : Fields β where
  columns := f.columns ++ x.columns
  fill := fun row position => do
    let g ← f.fill row position
    let a ← x.fill row (position + f.columns.length)
    return g a

instance : Applicative Fields where
  pure := constant
  seq f x := append f (x ())

end Fields

/-! ### Reading a record -/

/-- Passes through the entries of an object, given the names of the fields met so far. -/
def checkEntries (columns : List Column) :
    List String → List (String × Json) → Except DecodeError Unit
  | _, [] => .ok ()
  | seen, (key, v) :: entries =>
    match columns.find? fun c => c.goesBy key with
    | none => checkEntries columns seen entries
    | some c =>
      if c.name ∈ seen then .error (.duplicateField c.name)
      else do
        c.check v
        checkEntries columns (c.name :: seen) entries

/-- A record of a kind with as many elements as it has fields. -/
def describeElements (kind : String) (count : Nat) : String :=
  kind ++ " with " ++ toString count ++ (if count = 1 then " element" else " elements")

/-- Reads a record of a kind, such as `struct QueueDef`. -/
def Fields.decode (fields : Fields α) (kind : String) : Decoder α
  | .object entries => do
    checkEntries fields.columns [] entries
    fields.fill (.named entries) 0
  | .array values => do
    let count := fields.columns.length
    let a ← fields.fill (.positional (describeElements kind count) values) 0
    if count < values.length then .error (.invalidLength values.length "fewer elements in array")
    else .ok a
  | v => Decoder.wrongType v kind

end JobAdmission

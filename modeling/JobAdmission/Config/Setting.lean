import JobAdmission.Json.Token

/-!
# Settings

This module reads the texts of single settings: a binary64 number, a truth value and a
count. The whole text has to be of the form; spaces are not passed over.
-/

namespace JobAdmission

/-- Why the text of a setting is refused. -/
inductive SettingError where
  /-- A number is expected, and the text is empty. -/
  | emptyFloat
  /-- The text is no number. -/
  | invalidFloat
  /-- The text is no truth value. -/
  | invalidBoolean
  /-- A count is expected, and the text is empty. -/
  | emptyCount
  /-- A character of the text is no digit. -/
  | invalidDigit
  /-- The count exceeds 64 bits. -/
  | countTooLarge
  deriving DecidableEq, Repr

/-- The wording of a refusal. -/
def SettingError.message : SettingError → String
  | .emptyFloat => "cannot parse float from empty string"
  | .invalidFloat => "invalid float literal"
  | .invalidBoolean => "provided string was not `true` or `false`"
  | .emptyCount => "cannot parse integer from empty string"
  | .invalidDigit => "invalid digit found in string"
  | .countTooLarge => "number too large to fit in target type"

namespace Setting

/-! ### Numbers -/

/-- The digits after a point; none if there is no point. -/
def fractionDigits : List Char → List Nat × List Char
  | '.' :: cs => Json.digits cs
  | cs => ([], cs)

/-- A numeral that takes up the whole text: digits with or without a point among or
around them, at least one, and perhaps an exponent. -/
def numeral? (cs : List Char) : Option Numeral := do
  let (whole, cs) := Json.digits cs
  let (fraction, cs) := fractionDigits cs
  let (exponent, cs) ← Json.exponentPart cs
  if whole = [] ∧ fraction = [] ∨ cs ≠ [] then none
  else some ⟨whole, fraction, exponent.getD 0⟩

/-- The number that a word stands for, in small or capital letters. -/
def namedNumber? (negative : Bool) (cs : List Char) : Option Binary64 :=
  match String.ofList (cs.map Char.toLower) with
  | "inf" => some (.infinity negative)
  | "infinity" => some (.infinity negative)
  | "nan" => some .notANumber
  | _ => none

/-- A number without its sign. -/
def unsigned? (negative : Bool) (cs : List Char) : Option Binary64 :=
  ((numeral? cs).map fun x => x.round negative) <|> namedNumber? negative cs

/-- The number of a text. -/
def float (text : String) : Except SettingError Binary64 :=
  match text.toList with
  | [] => .error .emptyFloat
  | c :: cs =>
    let x := if c = '-' then unsigned? true cs else if c = '+' then unsigned? false cs
      else unsigned? false (c :: cs)
    match x with
    | none => .error .invalidFloat
    | some x => .ok x

/-! ### Truth values and counts -/

/-- The truth value of a text. -/
def boolean (text : String) : Except SettingError Bool :=
  match text with
  | "true" => .ok true
  | "false" => .ok false
  | _ => .error .invalidBoolean

/-- The count that digits spell after those read so far. The first character that is no
digit or exceeds 64 bits is what the text is refused for. -/
def countFrom (n : Nat) : List Char → Except SettingError UInt64
  | [] => .ok (UInt64.ofNat n)
  | c :: cs => match Json.digit? c with
    | none => .error .invalidDigit
    | some d =>
      if 10 * n + d < UInt64.size then countFrom (10 * n + d) cs else .error .countTooLarge

/-- The count of a text, which may start with a plus. -/
def count (text : String) : Except SettingError UInt64 :=
  match text.toList with
  | [] => .error .emptyCount
  | ['+'] => .error .invalidDigit
  | '+' :: cs => countFrom 0 cs
  | cs => countFrom 0 cs

end Setting

end JobAdmission

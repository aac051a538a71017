import JobAdmission.Json.Value
import JobAdmission.Numeric.Decimal

/-!
# JSON tokens

This module cuts a JSON text into tokens: marks, strings with their escapes
resolved, and the scalars `null`, `true`, `false` and numbers. A number is an
integer if it is written without a point and an exponent and fits in 64 bits with
or without a sign; `-0` and all other numbers are binary64 numbers.

Two tokens are cut off as such and have no value: a string with half of a surrogate
pair, and a number beyond every finite one. Where no token starts, as at a string
with a control character, the rest of the text is left alone.
-/

namespace JobAdmission.Json

/-- A token of a JSON text. -/
inductive Token where
  /-- An opening bracket. -/
  | openArray
  /-- A closing bracket. -/
  | closeArray
  /-- An opening brace. -/
  | openObject
  /-- A closing brace. -/
  | closeObject
  /-- A comma. -/
  | comma
  /-- A colon. -/
  | colon
  /-- A string. -/
  | string (value : String)
  /-- A value without parts that is no string. -/
  | scalar (value : Json)
  /-- A string with half of a surrogate pair. -/
  | halfPair
  /-- A number beyond every finite one. -/
  | hugeNumber
  /-- The rest of a text, which starts with no token. -/
  | unreadable

/-! ### Numbers -/

/-- The value of a decimal digit. -/
def digit? (c : Char) : Option Nat := if c.isDigit then some (c.toNat - '0'.toNat) else none

/-- Splits off the digits at the front. -/
def digits : List Char → List Nat × List Char
  | [] => ([], [])
  | c :: cs => match digit? c with
    | some d => let (ds, rest) := digits cs; (d :: ds, rest)
    | none => ([], c :: cs)

/-- The digits before the point: a single zero, or digits that start with no zero. -/
def wholePart (cs : List Char) : Option (List Nat × List Char) :=
  match digits cs with
  | ([], _) => none
  | (0 :: _ :: _, _) => none
  | (ds, rest) => some (ds, rest)

/-- The point and the digits after it, at least one; nothing if there is no point. -/
def fractionPart : List Char → Option (Option (List Nat) × List Char)
  | '.' :: cs => match digits cs with
    | ([], _) => none
    | (ds, rest) => some (some ds, rest)
  | cs => some (none, cs)

/-- The digits of an exponent, at least one. -/
def exponentDigits (negative : Bool) (cs : List Char) : Option (Option Int × List Char) :=
  match digits cs with
  | ([], _) => none
  | (ds, rest) => some (some (Binary64.signed negative (Numeral.ofDigits ds)), rest)

/-- The exponent with its mark; nothing if there is no mark. -/
def exponentPart : List Char → Option (Option Int × List Char)
  | c :: cs =>
    if c = 'e' ∨ c = 'E' then match cs with
      | '+' :: ds => exponentDigits false ds
      | '-' :: ds => exponentDigits true ds
      | ds => exponentDigits false ds
    else some (none, c :: cs)
  | [] => some (none, [])

/-- The number of an integer's digits: an integer if it fits in 64 bits, else a
binary64 number. The negative zero is no integer. -/
def integral (negative : Bool) (ds : List Nat) : Option Json :=
  let n := Numeral.ofDigits ds
  if !negative && decide (n < UInt64.size) then some (.integer n)
  else if negative && decide (0 < n ∧ n ≤ UInt64.size / 2) then some (.integer (-n))
  else ((Numeral.mk ds [] 0).scale negative).map .float

/-- The number at the front, after its sign, if it is not beyond every finite one, and
what follows it. -/
def number (negative : Bool) (cs : List Char) : Option (Option Json × List Char) := do
  let (whole, cs) ← wholePart cs
  let (fraction, cs) ← fractionPart cs
  let (exponent, cs) ← exponentPart cs
  let value := match fraction, exponent with
    | none, none => integral negative whole
    | _, _ => ((Numeral.mk whole (fraction.getD []) (exponent.getD 0)).scale negative).map .float
  return (value, cs)

/-! ### Strings -/

/-- The value of a hexadecimal digit. -/
def hexDigit? (c : Char) : Option Nat :=
  if c.isDigit then some (c.toNat - '0'.toNat)
  else if 'a' ≤ c ∧ c ≤ 'f' then some (c.toNat - 'a'.toNat + 10)
  else if 'A' ≤ c ∧ c ≤ 'F' then some (c.toNat - 'A'.toNat + 10)
  else none

/-- The value of four hexadecimal digits. -/
def hex4? (a b c d : Char) : Option Nat := do
  let a ← hexDigit? a
  let b ← hexDigit? b
  let c ← hexDigit? c
  let d ← hexDigit? d
  return ((a * 16 + b) * 16 + c) * 16 + d

/-- The character of a surrogate pair. -/
def ofSurrogates (high low : Nat) : Option Char :=
  if 0xdc00 ≤ low ∧ low ≤ 0xdfff then
    some (Char.ofNat (0x10000 + (high - 0xd800) * 0x400 + (low - 0xdc00)))
  else none

/-- The character of a surrogate pair, given its first half and what follows that. -/
def pairWith (high : Nat) : List Char → Option Char
  | '\\' :: 'u' :: a :: b :: c :: d :: _ => (hex4? a b c d).bind (ofSurrogates high)
  | _ => none

/-- The character of an escape, given what follows the backslash, and the number of
characters that the escape takes there. Half of a surrogate pair is no character. -/
def escape : List Char → Option (Option Char × Nat)
  | '"' :: _ => some ('"', 1)
  | '\\' :: _ => some ('\\', 1)
  | '/' :: _ => some ('/', 1)
  | 'b' :: _ => some ('\x08', 1)
  | 'f' :: _ => some ('\x0c', 1)
  | 'n' :: _ => some ('\n', 1)
  | 'r' :: _ => some ('\r', 1)
  | 't' :: _ => some ('\t', 1)
  | 'u' :: a :: b :: c :: d :: rest => do
    let n ← hex4? a b c d
    if 0xd800 ≤ n ∧ n ≤ 0xdbff then match pairWith n rest with
      | some c => some (c, 11)
      | none => some (none, 5)
    else if 0xdc00 ≤ n ∧ n ≤ 0xdfff then some (none, 5)
    else some (Char.ofNat n, 5)
  | _ => none

/-- A further character of a string, if all of them are characters. -/
def extend (done : Option (List Char)) (c : Option Char) : Option (List Char) := do
  let cs ← done
  let c ← c
  return c :: cs

/-- The string after its opening quote, if all its escapes are characters, and what
follows its closing quote. The characters read so far are given last first. -/
def stringBody (done : Option (List Char)) : List Char → Option (Option String × List Char)
  | [] => none
  | '"' :: rest => some (done.map fun cs => String.ofList cs.reverse, rest)
  | '\\' :: rest =>
    match escape rest with
    | none => none
    | some (c, n) => stringBody (extend done c) (rest.drop n)
  | c :: rest => if c.toNat < 0x20 then none else stringBody (extend done c) rest
termination_by cs => cs.length
decreasing_by
  · simp only [List.length_drop, List.length_cons]; omega
  · simp

/-! ### Tokens -/

/-- The characters between tokens. -/
def isSpace (c : Char) : Bool := c = ' ' || c = '\t' || c = '\n' || c = '\r'

/-- The token of a number. -/
def Token.ofNumber (value : Option Json) : Token := value.elim .hugeNumber .scalar

/-- The token of a string. -/
def Token.ofString (value : Option String) : Token := value.elim .halfPair .string

/-- The token at the front, which is no space, and what follows it. -/
def Token.first : List Char → Option (Token × List Char)
  | '[' :: cs => some (.openArray, cs)
  | ']' :: cs => some (.closeArray, cs)
  | '\x7b' :: cs => some (.openObject, cs)
  | '\x7d' :: cs => some (.closeObject, cs)
  | ',' :: cs => some (.comma, cs)
  | ':' :: cs => some (.colon, cs)
  | '"' :: cs => (stringBody (some []) cs).map fun r => (.ofString r.1, r.2)
  | 'n' :: 'u' :: 'l' :: 'l' :: cs => some (.scalar .null, cs)
  | 't' :: 'r' :: 'u' :: 'e' :: cs => some (.scalar (.boolean true), cs)
  | 'f' :: 'a' :: 'l' :: 's' :: 'e' :: cs => some (.scalar (.boolean false), cs)
  | '-' :: cs => (number true cs).map fun r => (.ofNumber r.1, r.2)
  | cs => (number false cs).map fun r => (.ofNumber r.1, r.2)

/-- The tokens of a text after those found so far, which are given last first. The
bound is on the number of characters left. -/
def Token.scan (done : List Token) : Nat → List Char → List Token
  | _, [] => done.reverse
  | 0, _ => (Token.unreadable :: done).reverse
  | bound + 1, c :: cs =>
    if isSpace c then scan done bound cs
    else match Token.first (c :: cs) with
      | none => (Token.unreadable :: done).reverse
      | some (t, cs) => scan (t :: done) bound cs

/-- The tokens of a text. Every token takes at least one character. -/
def Token.ofText (cs : List Char) : List Token := scan [] cs.length cs

end JobAdmission.Json

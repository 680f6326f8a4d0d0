import Bindery.Fault
import Bindery.Number.Decimal
import Bindery.Text.Blank
import Bindery.Value.Basic

/-!
# Reading record fields

A document value is taken for a field of a record if it can be read as a value of
the field's type.  Every other value is a fault of the field.
-/

namespace Bindery.Field

open Text

def isSpace (c : Char) : Bool :=
  isBlank c && !(28 ≤ c.toNat && c.toNat ≤ 31)

def trimSpace (chars : List Char) : List Char :=
  dropEndWhile isSpace (chars.dropWhile isSpace)

/-- Removes the underscores of a text that has them singly and inside only. -/
def dropUnderscores? (chars : List Char) : Option (List Char) :=
  if chars.head? = some '_' ∨ chars.getLast? = some '_' ∨ !chars.contains '_' ∨
      occursIn ['_', '_'] chars then none
  else some (chars.filter (· != '_'))

/-- Removes leading zeros, and underscores among them; one digit stays before a point and at the
end. -/
def dropZeros? : (last : Char) → List Char → Option (List Char)
  | last, [] => some [last]
  | last, c :: rest =>
    if c = '0' ∨ c = '_' then dropZeros? c rest
    else if c.isDigit then some (c :: rest)
    else if c = '.' then some (last :: c :: rest)
    else none

/-- Removes leading zeros of a text that starts with a digit or a minus sign. -/
def dropLeadingZeros? : List Char → Option (List Char)
  | [] => none
  | c :: rest =>
    if c = '0' then dropZeros? c rest
    else if c.isDigit || c = '-' then some (c :: rest)
    else none

def dropZeroFraction (chars : List Char) : List Char :=
  match cutChars '.' chars with
  | (whole, some fraction) => if fraction.all (· == '0') then whole else chars
  | (_, none) => chars

/-- Reads digits without a leading zero, behind an optional minus sign. -/
def plainInteger? (chars : List Char) : Option Int :=
  let read (digits : List Char) : Option Nat :=
    if digits.isEmpty || !digits.all Char.isDigit then none
    else if digits.head? = some '0' ∧ 1 < digits.length then none
    else some (decimalValue digits)
  match chars with
  | '-' :: digits => (read digits).map fun n => -(n : Int)
  | digits => (read digits).map fun n => (n : Int)

/-- Reads a text as an integer: a sign, leading zeros, underscores between digits and a fraction of
zeros are allowed. -/
def integerOfText? (text : String) : Option Int := do
  let chars := trimSpace text.toList
  let chars ← match chars with
    | '+' :: '-' :: _ => none
    | '+' :: rest => some rest
    | rest => some rest
  let chars ← dropLeadingZeros? chars
  let chars := dropZeroFraction chars
  plainInteger? ((dropUnderscores? chars).getD chars)

def isWord (n : Int) : Bool :=
  -9223372036854775808 ≤ n && n ≤ 9223372036854775807

def integer : Value → Except FieldFault Int
  | .int n => .ok n
  | .bool value => .ok (if value then 1 else 0)
  | .float double =>
    if double.isNonFinite then .error .notFinite
    else
      match double.toInt? with
      | none => .error .fractional
      | some n => if isWord n then .ok n else .error .tooManyDigits
  | .str text =>
    if 4300 < text.length then .error .tooManyDigits
    else
      match integerOfText? text with
      | some n => .ok n
      | none => .error .integerText
  | _ => .error .notInteger

def numberOfText? (text : String) : Option Double :=
  match Double.read? (trimSpace text.toList) with
  | some double => some double
  | none => (dropUnderscores? text.toList).bind Double.read?

def number : Value → Except FieldFault Double
  | .float double => .ok double
  | .int n =>
    match Double.ofInt? n with
    | some double => .ok double
    | none => .error .notNumber
  | .bool value => .ok (Double.ofFraction false (if value then 1 else 0) 1)
  | .str text =>
    match numberOfText? text with
    | some double => .ok double
    | none => .error .numberText
  | _ => .error .notNumber

def text : Value → Except FieldFault String
  | .str text => .ok text
  | _ => .error .notText

def trueWords : List String := ["1", "true", "t", "yes", "y", "on"]

def falseWords : List String := ["0", "false", "f", "no", "n", "off"]

def truth : Value → Except FieldFault Bool
  | .bool value => .ok value
  | .int n => if n = 1 then .ok true else if n = 0 then .ok false else .error .truthText
  | .float double =>
    match double.toInt? with
    | some n => if n = 1 then .ok true else if n = 0 then .ok false else .error .truthText
    | none => .error .notTruth
  | .str text =>
    let word := String.ofList (text.toList.map Char.toLower)
    if trueWords.contains word then .ok true
    else if falseWords.contains word then .ok false
    else .error .truthText
  | _ => .error .notTruth

def optional {α : Type} (read : Value → Except FieldFault α) :
    Option Value → Except FieldFault (Option α)
  | none => .ok none
  | some (.scalar .null) => .ok none
  | some value => (read value).map some

def problem? {α : Type} (field : String) : Except FieldFault α → List FieldProblem
  | .ok _ => []
  | .error fault => [{ field, fault }]

end Bindery.Field

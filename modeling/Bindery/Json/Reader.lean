import Bindery.Number.Decimal
import Bindery.Value.Basic

/-!
# Reading JSON

Reading turns a text into one document value.  The names of the special numbers are
accepted, too, and of two entries with one key the later value is kept in the place
of the earlier.  A reading that fails says what was expected and where.
-/

namespace Bindery.Json

open Text

inductive Problem where
  | byteOrderMark
  | extraData
  | noValue
  | noName
  | noColon
  | noComma
  | unterminated
  | controlCharacter
  | badEscape
  | badCodePoint
deriving DecidableEq, Repr

def Problem.text : Problem → String
  | .byteOrderMark => "Unexpected UTF-8 BOM (decode using utf-8-sig)"
  | .extraData => "Extra data"
  | .noValue => "Expecting value"
  | .noName => "Expecting property name enclosed in double quotes"
  | .noColon => "Expecting ':' delimiter"
  | .noComma => "Expecting ',' delimiter"
  | .unterminated => "Unterminated string starting at"
  | .controlCharacter => "Invalid control character at"
  | .badEscape => "Invalid \\escape"
  | .badCodePoint => "Invalid \\uXXXX escape"

/-- A problem, and how many characters of the text are left from its place on. -/
structure Mistake where
  problem : Problem
  left : Nat
deriving DecidableEq, Repr

def isSpace (c : Char) : Bool :=
  c == ' ' || c == '\t' || c == '\n' || c == '\r'

def skipSpace (chars : List Char) : List Char :=
  chars.dropWhile isSpace

def shortEscape? : Char → Option Char
  | '"' => some '"'
  | '\\' => some '\\'
  | '/' => some '/'
  | 'b' => some (Char.ofNat 8)
  | 'f' => some (Char.ofNat 12)
  | 'n' => some '\n'
  | 'r' => some '\r'
  | 't' => some '\t'
  | _ => none

def codeUnit? (a b c d : Char) : Option Nat := do
  let a ← hexValue? a
  let b ← hexValue? b
  let c ← hexValue? c
  let d ← hexValue? d
  return ((a * 16 + b) * 16 + c) * 16 + d

/-- The character of a code unit; half of a pair on its own has none and is replaced. -/
def unitChar (unit : Nat) : Char :=
  if 0xD800 ≤ unit ∧ unit ≤ 0xDFFF then Char.ofNat 0xFFFD else Char.ofNat unit

def isHighHalf (unit : Nat) : Bool := 0xD800 ≤ unit && unit ≤ 0xDBFF

def isLowHalf (unit : Nat) : Bool := 0xDC00 ≤ unit && unit ≤ 0xDFFF

/-- Reads the characters of a string up to its closing quote.  `opening` is the number of
characters left at the opening quote, and `done` holds what was read, last first. -/
def readChars (opening : Nat) : (chars done : List Char) → Except Mistake (List Char × List Char)
  | [], _ => .error ⟨.unterminated, opening⟩
  | '"' :: rest, done => .ok (done.reverse, rest)
  | ['\\'], _ => .error ⟨.unterminated, opening⟩
  | '\\' :: 'u' :: a :: b :: c :: d :: '\\' :: 'u' :: e :: f :: g :: h :: next :: rest, done =>
    match codeUnit? a b c d with
    | none => .error ⟨.badCodePoint, rest.length + 12⟩
    | some high =>
      if isHighHalf high then
        match codeUnit? e f g h with
        | none => .error ⟨.badCodePoint, rest.length + 6⟩
        | some low =>
          if isLowHalf low then
            let code := 0x10000 + (high - 0xD800) * 0x400 + (low - 0xDC00)
            readChars opening (next :: rest) (Char.ofNat code :: done)
          else
            readChars opening ('\\' :: 'u' :: e :: f :: g :: h :: next :: rest)
              (unitChar high :: done)
      else
        readChars opening ('\\' :: 'u' :: e :: f :: g :: h :: next :: rest) (unitChar high :: done)
  | '\\' :: 'u' :: a :: b :: c :: d :: next :: rest, done =>
    match codeUnit? a b c d with
    | none => .error ⟨.badCodePoint, rest.length + 6⟩
    | some unit => readChars opening (next :: rest) (unitChar unit :: done)
  | '\\' :: 'u' :: rest, _ => .error ⟨.badCodePoint, rest.length + 1⟩
  | '\\' :: c :: rest, done =>
    match shortEscape? c with
    | none => .error ⟨.badEscape, rest.length + 2⟩
    | some plain => readChars opening rest (plain :: done)
  | c :: rest, done =>
    if c.toNat < 32 then .error ⟨.controlCharacter, rest.length + 1⟩
    else readChars opening rest (c :: done)

def readString (chars : List Char) : Except Mistake (String × List Char) := do
  let (text, rest) ← readChars (chars.length + 1) chars []
  return (String.ofList text, rest)

/-- Reads the fraction of a number: a point with at least one digit behind it. -/
def readFraction : List Char → Option (List Char) × List Char
  | '.' :: c :: rest =>
    if c.isDigit then
      (some ((c :: rest).takeWhile Char.isDigit), (c :: rest).dropWhile Char.isDigit)
    else (none, '.' :: c :: rest)
  | chars => (none, chars)

/-- Reads the exponent of a number: a mark, an optional sign and at least one digit. -/
def readPower (chars : List Char) : Option Int × List Char :=
  match chars with
  | mark :: rest =>
    if mark = 'e' ∨ mark = 'E' then
      let (negative, digits) := match rest with
        | '-' :: rest => (true, rest)
        | '+' :: rest => (false, rest)
        | rest => (false, rest)
      let power := digits.takeWhile Char.isDigit
      if power.isEmpty then (none, chars)
      else
        let value : Int := decimalValue power
        (some (if negative then -value else value), digits.dropWhile Char.isDigit)
    else (none, chars)
  | [] => (none, [])

def readNumber? (chars : List Char) : Option (Scalar × List Char) :=
  let (negative, unsigned) := match chars with
    | '-' :: rest => (true, rest)
    | rest => (false, rest)
  let whole := match unsigned with
    | '0' :: _ => ['0']
    | rest => rest.takeWhile Char.isDigit
  if whole.isEmpty then none
  else
    let (fraction, rest) := readFraction (unsigned.drop whole.length)
    let (power, rest) := readPower rest
    let number : Scalar :=
      if fraction.isNone && power.isNone then
        let value : Int := decimalValue whole
        .int (if negative then -value else value)
      else
        let digits := fraction.getD []
        .float (Double.ofDecimal negative (decimalValue (whole ++ digits))
          (power.getD 0 - digits.length))
    some (number, rest)

def names : List (String × Scalar) :=
  [("null", .null), ("true", .bool true), ("false", .bool false), ("NaN", .float .nan),
    ("Infinity", .float (.infinity false)), ("-Infinity", .float (.infinity true))]

def readName? (chars : List Char) : Option (Scalar × List Char) :=
  names.findSome? fun (name, value) => (afterFront? name.toList chars).map (value, ·)

mutual

/-- Reads one value.  Each level of nesting and each member uses up one unit of `fuel`. -/
def readValue : (fuel : Nat) → List Char → Except Mistake (Value × List Char)
  | 0, chars => .error ⟨.noValue, chars.length⟩
  | fuel + 1, chars =>
    match chars with
    | '"' :: rest => do
      let (text, rest) ← readString rest
      return (.str text, rest)
    | '{' :: rest =>
      match skipSpace rest with
      | '}' :: rest => .ok (.map [], rest)
      | rest => readEntries fuel rest []
    | '[' :: rest =>
      match skipSpace rest with
      | ']' :: rest => .ok (.list [], rest)
      | rest => readItems fuel rest []
    | chars =>
      match readName? chars with
      | some (value, rest) => .ok (.scalar value, rest)
      | none =>
        match readNumber? chars with
        | some (value, rest) => .ok (.scalar value, rest)
        | none => .error ⟨.noValue, chars.length⟩

def readItems : (fuel : Nat) → (chars : List Char) → (done : List Value) →
    Except Mistake (Value × List Char)
  | 0, chars, _ => .error ⟨.noValue, chars.length⟩
  | fuel + 1, chars, done => do
    let (item, rest) ← readValue fuel chars
    match skipSpace rest with
    | ']' :: rest => return (.list (item :: done).reverse, rest)
    | ',' :: rest => readItems fuel (skipSpace rest) (item :: done)
    | rest => .error ⟨.noComma, rest.length⟩

/-- Reads the entries of a map up to its closing brace. -/
def readEntries : (fuel : Nat) → (chars : List Char) → (done : Entries) →
    Except Mistake (Value × List Char)
  | 0, chars, _ => .error ⟨.noName, chars.length⟩
  | fuel + 1, chars, done =>
    match chars with
    | '"' :: rest => do
      let (name, rest) ← readString rest
      match skipSpace rest with
      | ':' :: rest =>
        let (value, rest) ← readValue fuel (skipSpace rest)
        let done := done.set name value
        match skipSpace rest with
        | '}' :: rest => return (.map done, rest)
        | ',' :: rest => readEntries fuel (skipSpace rest) done
        | rest => .error ⟨.noComma, rest.length⟩
      | rest => .error ⟨.noColon, rest.length⟩
    | chars => .error ⟨.noName, chars.length⟩

end

def readText (chars : List Char) : Except Mistake Value := do
  if chars.head? = some (Char.ofNat 0xFEFF) then throw ⟨.byteOrderMark, chars.length⟩
  let (value, rest) ← readValue (2 * chars.length + 2) (skipSpace chars)
  match skipSpace rest with
  | [] => return value
  | rest => throw ⟨.extraData, rest.length⟩

def Mistake.message (mistake : Mistake) (chars : List Char) : String :=
  let place := chars.length - mistake.left
  let before := chars.take place
  let line := before.count '\n' + 1
  let column := (before.reverse.takeWhile (· != '\n')).length + 1
  mistake.problem.text ++ ": line " ++ decimal line ++ " column " ++ decimal column ++
    " (char " ++ decimal place ++ ")"

/-- The value of a text, or the wording of what is wrong with it. -/
def read (text : String) : Except String Value :=
  match readText text.toList with
  | .ok value => .ok value
  | .error mistake => .error (mistake.message text.toList)

end Bindery.Json

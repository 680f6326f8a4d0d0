import Bindery.Text.Basic
import Bindery.Value.Calendar

/-!
# YAML tags

The tag of a value says of what kind it is.  A plain scalar without a tag has the
kind that its text has the form of.
-/

namespace Bindery.Yaml

open Text

inductive Tag where
  | null
  | bool
  | int
  | float
  | binary
  | timestamp
  | str
  | sequence
  | mapping
  | set
  | orderedMap
  | pairs
  /-- The key under which another mapping is merged in. -/
  | merge
  /-- The key of a default value. -/
  | default
  | other (uri : String)
deriving DecidableEq, Repr

/-- The kinds by the names that follow the common part of their addresses. -/
def Tag.named : List (String × Tag) :=
  [("null", .null), ("bool", .bool), ("int", .int), ("float", .float), ("binary", .binary),
    ("timestamp", .timestamp), ("str", .str), ("seq", .sequence), ("map", .mapping),
    ("set", .set), ("omap", .orderedMap), ("pairs", .pairs), ("merge", .merge),
    ("value", .default)]

/-- The common part of the addresses of known kinds. -/
def Tag.base : String := "tag:yaml.org,2002:"

def Tag.ofUri (uri : String) : Tag :=
  ((after? Tag.base uri).bind fun name => Tag.named.lookup name).getD (.other uri)

def trueWords : List String :=
  ["yes", "Yes", "YES", "true", "True", "TRUE", "on", "On", "ON"]

def falseWords : List String :=
  ["no", "No", "NO", "false", "False", "FALSE", "off", "Off", "OFF"]

def nullWords : List String := ["", "~", "null", "Null", "NULL"]

def unsigned : List Char → List Char
  | '-' :: rest => rest
  | '+' :: rest => rest
  | chars => chars

def isDigitOrLine (c : Char) : Bool :=
  c.isDigit || c == '_'

def isSixtieth : List Char → Bool
  | [a] => a.isDigit
  | [a, b] => '0' ≤ a && a ≤ '5' && b.isDigit
  | _ => false

/-- Whether a text is a number in base sixty, whose first place satisfies a condition. -/
def isSixties (isFirst : List Char → Bool) (chars : List Char) : Bool :=
  match splitChars ':' chars with
  | first :: second :: rest => isFirst first && (second :: rest).all isSixtieth
  | _ => false

/-- Whether a text is a run of digits and underscores that starts with a digit. -/
def isDigitRun : List Char → Bool
  | c :: rest => c.isDigit && rest.all isDigitOrLine
  | [] => false

/-- Whether a text is such a run that does not start with a zero. -/
def isPlainRun (chars : List Char) : Bool :=
  isDigitRun chars && chars.head? != some '0'

/-- Whether a text, behind its sign, has the form of an integer. -/
def isIntegerForm (chars : List Char) : Bool :=
  match chars with
  | '0' :: 'b' :: rest => !rest.isEmpty && rest.all fun c => c == '0' || c == '1' || c == '_'
  | '0' :: 'x' :: rest => !rest.isEmpty && rest.all fun c => (hexValue? c).isSome || c == '_'
  | '0' :: rest => rest.all fun c => ('0' ≤ c && c ≤ '7') || c == '_'
  | chars => isPlainRun chars || isSixties isPlainRun chars

def isExponentForm : List Char → Bool
  | [] => true
  | e :: sign :: digits =>
    (e == 'e' || e == 'E') && (sign == '-' || sign == '+') && !digits.isEmpty &&
      digits.all Char.isDigit
  | _ => false

def isFloatForm (chars : List Char) : Bool :=
  match cutChars '.' chars with
  | (_, none) => false
  | (whole, some fraction) =>
    let number := unsigned whole
    let isNamed (names : List String) : Bool := names.contains (String.ofList fraction)
    (isDigitRun number && isExponentForm (fraction.dropWhile isDigitOrLine)) ||
    (whole.isEmpty && isDigitRun (fraction.takeWhile isDigitOrLine) &&
      isExponentForm (fraction.dropWhile isDigitOrLine)) ||
    (isSixties isDigitRun number && fraction.all isDigitOrLine) ||
    (number.isEmpty && isNamed ["inf", "Inf", "INF"]) ||
    (whole.isEmpty && isNamed ["nan", "NaN", "NAN"])

structure Timestamp where
  date : Date
  clock : Option (Nat × Nat × Nat)
  fraction : List Char
  offset : Option Int
deriving DecidableEq, Repr

def takeDigits (least most : Nat) (chars : List Char) : Option (Nat × List Char) :=
  let digits := (chars.take most).takeWhile Char.isDigit
  if digits.length < least then none
  else some (decimalValue digits, chars.drop digits.length)

def takeMark (mark : Char) : List Char → Option (List Char)
  | c :: rest => if c == mark then some rest else none
  | [] => none

/-- Reads the offset from universal time at the end of a moment, in seconds. -/
def readOffset? (chars : List Char) : Option (Option Int) :=
  match chars.dropWhile fun c => c == ' ' || c == '\t' with
  | [] => if chars.isEmpty then some none else none
  | ['Z'] => some (some 0)
  | sign :: rest => do
    if sign != '-' && sign != '+' then none
    let (hours, rest) ← takeDigits 1 2 rest
    let (minutes, rest) ← match rest with
      | ':' :: rest => takeDigits 2 2 rest
      | rest => some (0, rest)
    if !rest.isEmpty then none
    let seconds : Int := (hours * 60 + minutes) * 60
    return some (if sign == '-' then -seconds else seconds)

/-- Goes over what stands between a date and a time. -/
def takeGap? : List Char → Option (List Char)
  | [] => none
  | c :: rest =>
    if c == 'T' || c == 't' then some rest
    else if c == ' ' || c == '\t' then some (rest.dropWhile fun c => c == ' ' || c == '\t')
    else none

def readTimestamp? (chars : List Char) : Option Timestamp := do
  let (year, rest) ← takeDigits 4 4 chars
  let (month, rest) ← takeDigits 1 2 (← takeMark '-' rest)
  let (day, rest) ← takeDigits 1 2 (← takeMark '-' rest)
  let date : Date := { year, month, day }
  if rest.isEmpty then return { date, clock := none, fraction := [], offset := none }
  let (hour, rest) ← takeDigits 1 2 (← takeGap? rest)
  let (minute, rest) ← takeDigits 2 2 (← takeMark ':' rest)
  let (second, rest) ← takeDigits 2 2 (← takeMark ':' rest)
  let (fraction, rest) := match rest with
    | '.' :: rest => (rest.takeWhile Char.isDigit, rest.dropWhile Char.isDigit)
    | rest => ([], rest)
  return { date, clock := some (hour, minute, second), fraction, offset := ← readOffset? rest }

/-- Whether a text has the form of a date or a moment; a date alone has two digits each. -/
def isTimestampForm (chars : List Char) : Bool :=
  match readTimestamp? chars with
  | none => false
  | some timestamp => timestamp.clock.isSome || chars.length == 10

def Tag.ofPlain (text : String) : Tag :=
  let chars := text.toList
  if trueWords.contains text || falseWords.contains text then .bool
  else if isFloatForm chars then .float
  else if isIntegerForm (unsigned chars) then .int
  else if text = "<<" then .merge
  else if nullWords.contains text then .null
  else if isTimestampForm chars then .timestamp
  else if text = "=" then .default
  else .str

end Bindery.Yaml

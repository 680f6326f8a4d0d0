import Bindery.Number.Arithmetic
import Bindery.Number.Decimal
import Bindery.Text.Blank
import Bindery.Text.Case
import Bindery.Text.Digit
import Bindery.Value.Shape
import Bindery.Yaml.Node

/-!
# Reading YAML

A tree of nodes becomes a document value.  The scalars of the known kinds are
read by the rules of YAML 1.1; a node of an unknown kind cannot be read, and
only scalars can be keys.
-/

namespace Bindery.Yaml

open Text

def wrongKind {α : Type} : Except Trouble α :=
  .error (.malformed "a node does not fit its tag")

def outOfRange {α : Type} : Except Trouble α :=
  .error (.unusable .badValue)

def withoutLines (text : String) : List Char :=
  text.toList.filter (· != '_')

def readBool (text : String) : Except Trouble Scalar :=
  match lower text with
  | "yes" | "true" | "on" => .ok (.bool true)
  | "no" | "false" | "off" => .ok (.bool false)
  | _ => .error (.unusable .noKey)

def readBase (base : Nat) (digits : List Char) : Except Trouble Int :=
  let values := digits.filterMap hexValue?
  if digits.isEmpty || values.length != digits.length || values.any (base ≤ ·) then outOfRange
  else .ok (values.foldl (fun value digit => value * base + digit) 0 : Nat)

def readDecimal (digits : List Char) : Except Trouble Int :=
  match readInteger? (String.ofList digits) with
  | some n => .ok n
  | none => outOfRange

def readUnsigned (chars : List Char) : Except Trouble Int :=
  match chars with
  | [] => .error (.unusable .noIndex)
  | ['0'] => .ok 0
  | '0' :: 'b' :: digits => readBase 2 digits
  | '0' :: 'x' :: digits => readBase 16 digits
  | '0' :: digits => readBase 8 ('0' :: digits)
  | chars =>
    if chars.contains ':' then do
      let places ← (splitChars ':' chars).mapM readDecimal
      return places.foldl (fun value place => value * 60 + place) 0
    else readDecimal chars

def readInt (text : String) : Except Trouble Scalar := do
  let chars := withoutLines text
  if chars.isEmpty then throw (.unusable .noIndex)
  let n ← readUnsigned (unsigned chars)
  return .int (if chars.head? = some '-' then -n else n)

def readDouble (chars : List Char) : Except Trouble Double :=
  match Double.read? (trim (String.ofList chars)).toList with
  | some double => .ok double
  | none => outOfRange

def readUnsignedFloat (chars : List Char) : Except Trouble Double :=
  if chars = ".inf".toList then .ok (.infinity false)
  else if chars = ".nan".toList then .ok .nan
  else if chars.contains ':' then do
    let places ← (splitChars ':' chars).mapM readDouble
    let (value, _) := places.reverse.foldl (fun (value, base) place =>
      (value.add (place.mul base), base.mul (.ofFraction false 60 1)))
        (Double.zero false, Double.ofFraction false 1 1)
    return value
  else readDouble chars

def readFloat (text : String) : Except Trouble Scalar := do
  let chars := (lower (String.ofList (withoutLines text))).toList
  if chars.isEmpty then throw (.unusable .noIndex)
  let double ← readUnsignedFloat (unsigned chars)
  return .float (if chars.head? = some '-' then double.negate else double)

def microseconds (fraction : List Char) : Nat :=
  decimalValue ((fraction ++ List.replicate 6 '0').take 6)

def readMoment (text : String) : Except Trouble Scalar :=
  match readTimestamp? text.toList with
  | none => .error (.unusable .noMember)
  | some { date, clock := none, .. } => if date.isValid then .ok (.date date) else outOfRange
  | some { date, clock := some (hour, minute, second), fraction, offset } =>
    let moment : DateTime :=
      { date, hour, minute, second, offset, microsecond := microseconds fraction }
    let isNear := (offset.map fun offset => decide (offset.natAbs < 86400)).getD true
    if moment.isValid && isNear then .ok (.dateTime moment) else outOfRange

def sixtyFourth? (c : Char) : Option Nat :=
  if 'A' ≤ c && c ≤ 'Z' then some (c.toNat - 65)
  else if 'a' ≤ c && c ≤ 'z' then some (c.toNat - 71)
  else if c.isDigit then some (c.toNat + 4)
  else if c == '+' then some 62
  else if c == '/' then some 63
  else none

/-- Reads bytes in base sixty-four: `held` is the value of the digits of the present group, `place`
their number, and `pads` the number of padding marks behind them. -/
def readBytesFrom : (place held pads : Nat) → List Char → Except Trouble (List UInt8)
  | place, _, _, [] =>
    if place = 0 then .ok [] else .error (.malformed "bytes are not padded")
  | place, held, pads, c :: rest =>
    if c == '=' then
      if 2 ≤ place && 4 ≤ place + pads + 1 then .ok []
      else readBytesFrom place held (if 2 ≤ place then pads + 1 else pads) rest
    else
      match sixtyFourth? c with
      | none => readBytesFrom place held pads rest
      | some digit =>
        let byte (value : Nat) : UInt8 := UInt8.ofNat (value % 256)
        match place with
        | 0 => readBytesFrom 1 digit 0 rest
        | 1 => do return byte (held * 4 + digit / 16) :: (← readBytesFrom 2 (digit % 16) 0 rest)
        | 2 => do return byte (held * 16 + digit / 4) :: (← readBytesFrom 3 (digit % 4) 0 rest)
        | _ => do return byte (held * 64 + digit) :: (← readBytesFrom 0 0 0 rest)

def readBytes (text : String) : Except Trouble Scalar := do
  if text.toList.any fun c => 128 ≤ c.toNat then wrongKind
  return .bytes (← readBytesFrom 0 0 0 text.toList)

def readScalar (tag : Tag) (text : String) : Except Trouble Scalar :=
  match tag with
  | .null => .ok .null
  | .bool => readBool text
  | .int => readInt text
  | .float => readFloat text
  | .binary => readBytes text
  | .timestamp => readMoment text
  | .str => .ok (.str text)
  | _ => wrongKind

def pairOf : Value → Except Trouble Value
  | .map [(key, value)] => .ok (.list [.scalar key, value])
  | _ => wrongKind

mutual

def Node.value : Node → Except Trouble Value
  | .scalar tag text => do return .scalar (← readScalar tag text)
  | .sequence tag items => do
    let values ← valuesOf items
    match tag with
    | .sequence => return .list values
    | .orderedMap | .pairs => return .list (← values.mapM pairOf)
    | _ => wrongKind
  | .mapping tag pairs => do
    let entries := Entries.collect (← entriesOf pairs)
    match tag with
    | .mapping => return .map entries
    | .set => return .list (entries.map fun entry => .scalar entry.1)
    | _ => wrongKind

def valuesOf : List Node → Except Trouble (List Value)
  | [] => .ok []
  | node :: rest => do
    let value ← node.value
    return value :: (← valuesOf rest)

def entriesOf : List (Node × Node) → Except Trouble Entries
  | [] => .ok []
  | (key, node) :: rest => do
    match ← key.value with
    | .scalar key =>
      let value ← node.value
      return (key, value) :: (← entriesOf rest)
    | _ => throw (.malformed "a key is not a scalar")

end

def read (text : String) : Except Trouble Value := do
  match ← Node.ofText? text with
  | none => return .null
  | some root => root.value

end Bindery.Yaml

import Bindery.Number.Decimal
import Bindery.Number.Total
import Bindery.Text.Quoted
import Bindery.Value.Basic

/-!
# Texts and comparisons of values

Every value has a literal and a plain text.  Values are compared by meaning: numbers
of different kinds can be the same, and so can maps of different order.
-/

namespace Bindery

namespace Scalar

open Text

def literal : Scalar → String
  | .null => "None"
  | .bool value => if value then "True" else "False"
  | .int value => integer value
  | .float value => value.text
  | .str value => quoted value
  | .bytes value => quotedBytes value
  | .date value => value.literal
  | .dateTime value => value.literal

def text : Scalar → String
  | .str value => value
  | .date value => value.iso
  | .dateTime value => value.iso " "
  | value => value.literal

def kindName : Scalar → String
  | .null => "NoneType"
  | .bool _ => "bool"
  | .int _ => "int"
  | .float _ => "float"
  | .str _ => "str"
  | .bytes _ => "bytes"
  | .date _ => "date"
  | .dateTime _ => "datetime"

def isTextual : Scalar → Bool
  | .str _ => true
  | _ => false

/-- Whether a scalar counts as present: zero, empty text and the absent value do not. -/
def isTruthy : Scalar → Bool
  | .null => false
  | .bool value => value
  | .int value => value != 0
  | .float value => !value.isZero
  | .str value => !value.toList.isEmpty
  | .bytes value => !value.isEmpty
  | .date _ => true
  | .dateTime _ => true

/-- The integer a truth value or integer stands for. -/
def toInt? : Scalar → Option Int
  | .bool value => some (if value then 1 else 0)
  | .int value => some value
  | _ => none

/-- Microseconds since the start of the calendar, in universal time if the offset is known. -/
def instant (moment : DateTime) : Int :=
  let years := moment.date.year
  let before := years - 1
  let leapDays := before / 4 - before / 100 + before / 400
  let monthDays := total ((List.range (moment.date.month - 1)).map fun month =>
    Date.daysInMonth years (month + 1))
  let days := before * 365 + leapDays + monthDays + moment.date.day
  let seconds : Int := ((days * 24 + moment.hour) * 60 + moment.minute) * 60 + moment.second
  (seconds - moment.offset.getD 0) * 1000000 + moment.microsecond

/-- Equality by meaning: numbers of different kinds are the same if their values are. -/
def same (a b : Scalar) : Bool :=
  match a.toInt?, b.toInt? with
  | some m, some n => m == n
  | some m, none =>
    match b with
    | .float x => x.toInt? == some m
    | _ => false
  | none, some n =>
    match a with
    | .float x => x.toInt? == some n
    | _ => false
  | none, none =>
    match a, b with
    | .float x, .float y => x.same y
    | .dateTime s, .dateTime t => s.offset.isSome == t.offset.isSome && instant s == instant t
    | a, b => a = b

end Scalar

namespace Value

open Text

mutual

def literal : Value → String
  | .scalar value => value.literal
  | .list items => "[" ++ join ", " (literalList items) ++ "]"
  | .map entries => "\x7b" ++ join ", " (literalEntries entries) ++ "\x7d"

def literalList : List Value → List String
  | [] => []
  | item :: rest => literal item :: literalList rest

def literalEntries : List (Scalar × Value) → List String
  | [] => []
  | (key, value) :: rest => (key.literal ++ ": " ++ literal value) :: literalEntries rest

end

def text : Value → String
  | .scalar value => value.text
  | value => value.literal

def kindName : Value → String
  | .scalar value => value.kindName
  | .list _ => "list"
  | .map _ => "dict"

def isTruthy : Value → Bool
  | .scalar value => value.isTruthy
  | .list items => !items.isEmpty
  | .map entries => !entries.isEmpty

mutual

def same : Value → Value → Bool
  | .scalar a, .scalar b => a.same b
  | .list a, .list b => sameList a b
  | .map a, .map b => a.length == b.length && sameEntries a b
  | _, _ => false

def sameList : List Value → List Value → Bool
  | [], [] => true
  | a :: as, b :: bs => same a b && sameList as bs
  | _, _ => false

/-- Whether each entry has a counterpart of the same key and value among other entries. -/
def sameEntries : List (Scalar × Value) → List (Scalar × Value) → Bool
  | [], _ => true
  | (key, value) :: rest, others =>
    (others.any fun other => key.same other.1 && same value other.2) && sameEntries rest others

end

def toEntries? : Value → Option Entries
  | .map entries => some entries
  | _ => none

def toList? : Value → Option (List Value)
  | .list items => some items
  | _ => none

def toText? : Value → Option String
  | .str text => some text
  | _ => none

def isText (value : Value) (text : String) : Bool :=
  value.toText? == some text

end Value

end Bindery

import Bindery.Number.Decimal
import Bindery.Value.Text

/-!
# Writing JSON

A document value is written on one line, or indented with one member on each
line.  Calendar values and bytes, which JSON has no form for, are written as
their plain text.
-/

namespace Bindery.Json

open Text

def escape (c : Char) : List Char :=
  if c = '"' ∨ c = '\\' then ['\\', c]
  else if c = '\n' then ['\\', 'n']
  else if c = '\r' then ['\\', 'r']
  else if c = '\t' then ['\\', 't']
  else if c.toNat = 8 then ['\\', 'b']
  else if c.toNat = 12 then ['\\', 'f']
  else if c.toNat < 32 then '\\' :: 'u' :: hexDigits 4 c.toNat
  else [c]

def string (text : String) : String :=
  String.ofList ('"' :: (text.toList.flatMap escape ++ ['"']))

def number : Double → String
  | .nan => "NaN"
  | .infinity negative => if negative then "-Infinity" else "Infinity"
  | double => double.text

def scalar : Scalar → String
  | .null => "null"
  | .bool value => if value then "true" else "false"
  | .int value => integer value
  | .float value => number value
  | value => string value.text

def key : Scalar → String
  | .str name => string name
  | .float value => string (number value)
  | .null => string "null"
  | .bool value => string (if value then "true" else "false")
  | value => string value.text

inductive Layout where
  | compact
  | indented (width : Nat)
deriving DecidableEq, Repr

def Layout.enclose (layout : Layout) (depth : Nat) (opening closing : String)
    (members : List String) : String :=
  match layout with
  | .compact => opening ++ join "," members ++ closing
  | .indented width =>
    if members.isEmpty then opening ++ closing
    else
      let line (depth : Nat) := String.ofList ('\n' :: List.replicate (width * depth) ' ')
      opening ++ line (depth + 1) ++ join ("," ++ line (depth + 1)) members ++ line depth ++ closing

def Layout.colon : Layout → String
  | .compact => ":"
  | .indented _ => ": "

mutual

def writeAt (layout : Layout) (depth : Nat) : Value → String
  | .scalar value => scalar value
  | .list items => layout.enclose depth "[" "]" (writeItems layout (depth + 1) items)
  | .map entries => layout.enclose depth "\x7b" "\x7d" (writeEntries layout (depth + 1) entries)

def writeItems (layout : Layout) (depth : Nat) : List Value → List String
  | [] => []
  | item :: rest => writeAt layout depth item :: writeItems layout depth rest

def writeEntries (layout : Layout) (depth : Nat) : List (Scalar × Value) → List String
  | [] => []
  | (name, value) :: rest =>
    (key name ++ layout.colon ++ writeAt layout depth value) :: writeEntries layout depth rest

end

def write (layout : Layout) (value : Value) : String :=
  writeAt layout 0 value

end Bindery.Json

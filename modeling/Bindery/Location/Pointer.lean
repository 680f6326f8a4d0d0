import Bindery.Fault
import Bindery.Text.Digit
import Bindery.Value.Text

/-!
# Pointers into documents

A pointer is a sequence of segments behind slashes, with `~1` for a slash and `~0`
for a tilde.  A segment is a key of a map or the index of a list item.
-/

namespace Bindery.Pointer

def unescapeChars : List Char → List Char
  | [] => []
  | '~' :: '1' :: rest => '/' :: unescapeChars rest
  | '~' :: '0' :: rest => '~' :: unescapeChars rest
  | c :: rest => c :: unescapeChars rest

def unescape (segment : String) : String :=
  String.ofList (unescapeChars segment.toList)

def escapeChar (c : Char) : List Char :=
  if c = '~' then ['~', '0'] else if c = '/' then ['~', '1'] else [c]

def escape (text : String) : String :=
  String.ofList (text.toList.flatMap escapeChar)

def segments (pointer : String) : List String :=
  if pointer = "" ∨ pointer = "/" then []
  else
    let behind := String.ofList (pointer.toList.dropWhile (· == '/'))
    (Text.split '/' behind).map unescape

/-- The item at an index of a list; a negative index counts from the end. -/
def item? (items : List Value) (index : Int) : Option Value :=
  if 0 ≤ index then items[index.natAbs]?
  else if index.natAbs ≤ items.length then items[items.length - index.natAbs]?
  else none

/-- One step into a value.  `reference` is what the step is taken for. -/
def step (reference : String) (value : Value) (segment : String) : Except ResolutionFault Value :=
  match value with
  | .map entries =>
    match Entries.get? segment entries with
    | some part => .ok part
    | none => .error (.missingKey reference segment)
  | .list items =>
    match (Text.readInteger? segment).bind (item? items) with
    | some part => .ok part
    | none => .error (.badIndex reference segment)
  | .scalar value => .error (.notNavigable reference value.kindName)

def walk (reference : String) : Value → List String → Except ResolutionFault Value
  | value, [] => .ok value
  | value, segment :: rest =>
    match step reference value segment with
    | .ok part => walk reference part rest
    | .error fault => .error fault

def resolve (reference : String) (document : Value) (pointer : String) :
    Except ResolutionFault Value :=
  walk reference document (segments pointer)

end Bindery.Pointer

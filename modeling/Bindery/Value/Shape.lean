import Bindery.Fault
import Bindery.Value.Text

/-!
# Reading values of unchecked shape

Documents arrive with values of any shape where a map or a list is expected.  The
readings here say what such a value gives, or which fault it is.
-/

namespace Bindery

namespace Entries

/-- Puts a value under any key: in place if a key of the same meaning is present, at the end if
not. -/
def put (key : Scalar) (value : Value) : Entries → Entries
  | [] => [(key, value)]
  | (old, oldValue) :: rest =>
    if old.same key then (old, value) :: rest else (old, oldValue) :: put key value rest

def hasKey (key : Scalar) (entries : Entries) : Bool :=
  entries.any fun entry => entry.1.same key

/-- Collects entries; of two with keys of the same meaning the later value stands in the earlier
place. -/
def collect (entries : Entries) : Entries :=
  entries.foldl (fun collected entry => collected.put entry.1 entry.2) []

/-- The value under a text key if it counts as present. -/
def present? (name : String) (entries : Entries) : Option Value :=
  (entries.get? name).filter Value.isTruthy

end Entries

namespace Value

def needEntries : Value → Except Fault Entries
  | .map entries => .ok entries
  | _ => .error (.shape .noMember)

def entriesOrNone : Option Value → Except Fault Entries
  | none => .ok []
  | some value => value.needEntries

def needItems : Value → Except Fault (List Value)
  | .list items => .ok items
  | .map entries => .ok (entries.map fun entry => .scalar entry.1)
  | .str text => .ok (text.toList.map fun c => .str (String.singleton c))
  | .scalar (.bytes bytes) => .ok (bytes.map fun byte => .int byte.toNat)
  | .scalar _ => .error (.shape .wrongKind)

/-- What a walk over an optional value meets; an absent one is empty. -/
def itemsOrNone : Option Value → Except Fault (List Value)
  | none => .ok []
  | some value => value.needItems

def needKey : Value → Except Fault Scalar
  | .scalar key => .ok key
  | _ => .error (.shape .wrongKind)

/-- Whether a text is met in a value: as an item, as a key, or as a part of a text. -/
def holdsText (text : String) : Value → Except Fault Bool
  | .list items => .ok (items.any fun item => item.isText text)
  | .map entries => .ok (Entries.has text entries)
  | .str other => .ok (Text.occursIn text.toList other.toList)
  | .scalar _ => .error (.shape .wrongKind)

def isOneOf (texts : List String) (value : Value) : Bool :=
  match value with
  | .str text => texts.contains text
  | _ => false

end Value

def Scalar.isOneOf (texts : List String) : Scalar → Bool
  | .str text => texts.contains text
  | _ => false

end Bindery

import Bindery.Fault
import Bindery.Location.Path
import Bindery.Location.Pointer
import Bindery.Location.Url
import Bindery.Text.Utf8

/-!
# Locations and references

A location says where a document is.  A reference is a location, relative to the
document it stands in, and behind a `#` a pointer into the document there.
-/

namespace Bindery

/-- An absolute location together with a pointer into the document there. -/
structure Reference where
  location : String
  pointer : String
deriving DecidableEq, Repr

namespace Location

def isUrl (location : String) : Bool :=
  Text.beginsWith location "http://" || Text.beginsWith location "https://"

/-- The absolute form of a location given on the command line or in a document without place. -/
def absolute (working : List String) (source : String) : String :=
  if source = "-" then source
  else if isUrl source then (Text.cut '#' source).1
  else (Path.ofText source).resolve working

/-- The location of `target` seen from a document at `base`. -/
def join (working : List String) (base target : String) : Except Fault String :=
  if isUrl target then .ok target
  else if isUrl base then
    match Url.join? base target with
    | some joined => .ok joined
    | none => .error (.shape .badValue)
  else if base = "-" ∨ base = "<memory>" then .ok (absolute working target)
  else .ok (((Path.ofText base).parent.append (Path.ofText target)).resolve working)

def percentBytes : List Char → List UInt8
  | '%' :: a :: b :: rest =>
    match Text.hexValue? a, Text.hexValue? b with
    | some high, some low => UInt8.ofNat (high * 16 + low) :: percentBytes rest
    | _, _ => 37 :: percentBytes (a :: b :: rest)
  | c :: rest => UInt8.ofNat c.toNat :: percentBytes rest
  | [] => []

/-- Reads the percent escapes of each ASCII stretch of a text; other characters stay. -/
def percentDecodeFrom (stretch : List Char) : List Char → List Char
  | [] => (Text.ofUtf8Lenient (percentBytes stretch.reverse)).toList
  | c :: rest =>
    if c.toNat < 128 then percentDecodeFrom (c :: stretch) rest
    else
      (Text.ofUtf8Lenient (percentBytes stretch.reverse)).toList ++ c :: percentDecodeFrom [] rest

def percentDecode (text : String) : String :=
  String.ofList (percentDecodeFrom [] text.toList)

/-- The name proposed for a schema: the last segment of its pointer, or else the stem of its
document. -/
def proposedName (location pointer : String) : Except Fault String :=
  match ((Text.split '/' pointer).filter (· ≠ "")).getLast? with
  | some segment => .ok (Pointer.unescape segment)
  | none =>
    let path? := if isUrl location then (Url.split? location).map (·.path) else some location
    match path? with
    | none => .error (.shape .badValue)
    | some path =>
      let slashed := String.ofList (path.toList.map fun c => if c = '\\' then '/' else c)
      let stem := (Path.ofText slashed).stem
      .ok (if stem = "" then "Schema" else stem)

end Location

namespace Reference

def ofText (working : List String) (text base : String) : Except Fault Reference := do
  let (target, fragment) := Text.cut '#' text
  let location ← if target = "" then pure base else Location.join working base target
  return { location, pointer := Location.percentDecode (fragment.getD "") }

def key (reference : Reference) : String :=
  reference.location ++ "#" ++ reference.pointer

/-- How a reference is shown in a run whose root document is at `root`. -/
def shown (reference : Reference) (root : String) : String :=
  if reference.location = root then "#" ++ reference.pointer else reference.key

end Reference

end Bindery

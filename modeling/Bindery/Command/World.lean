import Bindery.File.Disk
import Bindery.Loading
import Bindery.Resolution.Cache

/-!
# The world of a run

A run sees the environment, the standard input and a disk.  Documents are read
from the files of the disk; the network is out of reach, so a document at a URL
cannot be loaded.
-/

namespace Bindery

structure World where
  environment : List (String × String)
  terminal : Bool := false
  standardInput : String := ""
  disk : Disk

namespace World

def file? (world : World) (path : Path) : Option String :=
  match world.disk.tree.locate world.disk.working path with
  | .ok place => world.disk.tree.file? place
  | .error _ => none

/-- Why a document that is on no file cannot be loaded. -/
def absent (location : String) : DocumentFault :=
  if Location.isUrl location then
    .unreachable location "[Errno 101] Network is unreachable"
  else .notFound location

def document (world : World) (input : String) : Except Fault Value :=
  if input = "-" then Loading.ofInput world.standardInput
  else if Location.isUrl input then .error (.document (absent input))
  else
    match world.file? (Path.ofText input) with
    | some content => Loading.ofFile input content
    | none => .error (.document (absent input))

/-- The documents that can be loaded: the one that the input names, and every file. -/
def library (world : World) (input : String) : Library where
  documents := (input, world.document input) ::
    world.disk.tree.items.filterMap fun (place, item) =>
      match item with
      | .file content =>
        let location := Path.absoluteText place
        some (location, Loading.ofFile location content)
      | .directory => none
  absent := absent

mutual

/-- The texts of a document that may name other documents: its references, and the targets that a
discriminator maps to. -/
def companions : Value → List String
  | .map entries => companionsInEntries entries
  | .list items => companionsInList items
  | .scalar _ => []

def companionsInList : List Value → List String
  | [] => []
  | item :: rest => companions item ++ companionsInList rest

def companionsInEntries : List (Scalar × Value) → List String
  | [] => []
  | (key, value) :: rest =>
    let named : List String := match key, value with
      | .str "$ref", .str text => [text]
      | .str "mapping", .map targets => targets.filterMap fun target => target.2.toText?
      | _, _ => []
    named ++ companions value ++ companionsInEntries rest

end

def neighbours (working : List String) (location : String) (document : Value) : List String :=
  (companions document).filterMap fun text =>
    (Reference.ofText working text location).toOption.map (·.location)

end World

end Bindery

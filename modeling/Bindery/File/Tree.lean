import Bindery.Location.Path
import Bindery.Text.Utf8

/-!
# File trees

A file tree holds files and directories, each at a place, which is the list of
names from the root to it.  The root is a directory and is not listed.
-/

namespace Bindery

inductive FileItem where
  | file (text : String)
  | directory
deriving DecidableEq, Repr

structure FileTree where
  items : List (List String × FileItem) := []
deriving DecidableEq, Repr

inductive StepFault where
  | missing
  | taken
  | notDirectory
  | isDirectory
  | intoItself
  | nameTooLong
  /-- The step failed for a reason that the tree does not show. -/
  | refused (cause : String)
  /-- The path cannot be handed to a file system, because a name holds a null character. -/
  | unusableName
deriving DecidableEq, Repr

namespace StepFault

def text : StepFault → String
  | .missing => "[Errno 2] No such file or directory"
  | .taken => "[Errno 17] File exists"
  | .notDirectory => "[Errno 20] Not a directory"
  | .isDirectory => "[Errno 21] Is a directory"
  | .intoItself => "[Errno 22] Invalid argument"
  | .nameTooLong => "[Errno 36] File name too long"
  | .refused cause => cause
  | .unusableName => "embedded null byte"

def isReported : StepFault → Bool
  | .unusableName => false
  | _ => true

end StepFault

namespace FileTree

def item? (tree : FileTree) (place : List String) : Option FileItem :=
  if place = [] then some .directory else tree.items.lookup place

def has (tree : FileTree) (place : List String) : Bool :=
  (tree.item? place).isSome

def nameLimit : Nat := 255

def walk (tree : FileTree) : (place names : List String) → Except StepFault (List String)
  | place, [] => .ok place
  | place, name :: rest =>
    match tree.item? place with
    | none => .error .missing
    | some (.file _) => .error .notDirectory
    | some .directory =>
      if name = ".." then walk tree place.dropLast rest
      else if nameLimit < (Text.utf8Bytes name).length then .error .nameTooLong
      else walk tree (place ++ [name]) rest

/-- The place that a path leads to from a working directory; nothing has to stand there. -/
def locate (tree : FileTree) (working : List String) (path : Path) :
    Except StepFault (List String) :=
  if path.names.any (Text.hasChar · '\x00') then .error .unusableName
  else tree.walk (if path.isAbsolute then [] else working) path.names

def makeDirectory (place : List String) (tree : FileTree) : Except StepFault FileTree :=
  if tree.has place then .error .taken
  else .ok { items := tree.items ++ [(place, .directory)] }

def setFile (place : List String) (text : String) (tree : FileTree) : FileTree where
  items :=
    if tree.has place then
      tree.items.map fun item => if item.1 = place then (place, .file text) else item
    else tree.items ++ [(place, .file text)]

def writeFile (place : List String) (text : String) (tree : FileTree) :
    Except StepFault FileTree :=
  if tree.item? place = some .directory then .error .isDirectory
  else .ok (tree.setFile place text)

/-- Where a place is after everything at `source` and below has moved to `target`. -/
def relocate (source target place : List String) : List String :=
  if source.isPrefixOf place then target ++ place.drop source.length else place

def move (source target : List String) (tree : FileTree) : FileTree where
  items := tree.items.map fun item => (relocate source target item.1, item.2)

def rename (source target : List String) (tree : FileTree) : Except StepFault FileTree :=
  if !tree.has source then .error .missing
  else if tree.has target then .error .taken
  else if source.isPrefixOf target then .error .intoItself
  else .ok (tree.move source target)

def remove (place : List String) (tree : FileTree) : FileTree where
  items := tree.items.filter fun item => !place.isPrefixOf item.1

def addDirectory (place : List String) (tree : FileTree) : FileTree :=
  (List.range place.length).foldl (fun tree count =>
    let above := place.take (count + 1)
    if tree.has above then tree else { items := tree.items ++ [(above, .directory)] }) tree

def addFile (place : List String) (text : String) (tree : FileTree) : FileTree :=
  (tree.addDirectory place.dropLast).setFile place text

def file? (tree : FileTree) (place : List String) : Option String :=
  match tree.item? place with
  | some (.file text) => some text
  | _ => none

def below (tree : FileTree) (directory : List String) : List (List String × FileItem) :=
  tree.items.filterMap fun item =>
    if directory.isPrefixOf item.1 && directory.length < item.1.length then
      some (item.1.drop directory.length, item.2)
    else none

/-- How an item is listed: a directory ends in a slash. -/
def listed (item : List String × FileItem) : String :=
  Text.join "/" item.1 ++ if item.2 = .directory then "/" else ""

def listing (tree : FileTree) (directory : List String) : List String :=
  ((tree.below directory).map listed).mergeSort fun a b => a ≤ b

end FileTree

end Bindery

import Bindery.File.Tree

/-!
# Steps on a disk

A disk is a file tree that is changed step by step, seen from a working
directory.  Any step may fail, either because of the tree or because of an
obstacle from outside, and a failed step changes nothing.
-/

namespace Bindery

structure Disk where
  tree : FileTree
  working : List String := []
  steps : Nat := 0
  /-- The steps that fail for a reason outside the tree. -/
  obstacle : Nat → Option StepFault := fun _ => none

abbrev OnDisk := ExceptT StepFault (StateM Disk)

namespace Disk

def has (disk : Disk) (path : Path) : Bool :=
  match disk.tree.locate disk.working path with
  | .ok place => disk.tree.has place
  | .error _ => false

def isDirectory (disk : Disk) (path : Path) : Bool :=
  match disk.tree.locate disk.working path with
  | .ok place => disk.tree.item? place = some .directory
  | .error _ => false

/-- Removes everything that a path leads to; nothing happens if it leads nowhere. -/
def remove (path : Path) (disk : Disk) : Disk :=
  match disk.tree.locate disk.working path with
  | .ok place => { disk with tree := disk.tree.remove place }
  | .error _ => disk

/-- Moves what a path leads to; nothing happens if that is not possible. -/
def restore (source target : Path) (disk : Disk) : Disk :=
  match disk.tree.locate disk.working source, disk.tree.locate disk.working target with
  | .ok source, .ok target => { disk with tree := disk.tree.move source target }
  | _, _ => disk

/-- Whether something stands where a path leads; asking with a name that is too long fails. -/
def probe (disk : Disk) (path : Path) : Except StepFault Bool :=
  match disk.tree.locate disk.working path with
  | .ok place => .ok (disk.tree.has place)
  | .error .nameTooLong => .error .nameTooLong
  | .error _ => .ok false

/-- The outermost directory that is missing on the way to a path, which is given by its root and
its names from the last one on. -/
def missingFrom (disk : Disk) (root : String) : List String → Except StepFault (Option Path)
  | [] => return none
  | name :: above => do
    let path : Path := { root, names := (name :: above).reverse }
    if ← disk.probe path then return none
    else return (← missingFrom disk root above).or (some path)

def firstMissing (disk : Disk) (path : Path) : Except StepFault (Option Path) :=
  disk.missingFrom path.root path.names.reverse

/-- A name that no item of the tree has, with a number between two given parts. -/
def freshName (disk : Disk) (front back : String) : String :=
  let used := disk.tree.items.flatMap (·.1)
  let candidate (number : Nat) : String := front ++ Text.padded 8 number ++ back
  let number := ((List.range used.length).find? fun number =>
    !used.contains (candidate number)).getD used.length
  candidate number

/-- Takes one step on the tree.  A name that no file system can have is refused before the step;
after that an obstacle may be in the way. -/
def take (action : FileTree → Except StepFault FileTree) (disk : Disk) :
    Except StepFault Unit × Disk :=
  let counted := { disk with steps := disk.steps + 1 }
  match action disk.tree, disk.obstacle disk.steps with
  | .error .unusableName, _ => (.error .unusableName, disk)
  | _, some fault => (.error fault, counted)
  | .error fault, none => (.error fault, counted)
  | .ok tree, none => (.ok (), { counted with tree })

end Disk

namespace OnDisk

def step (action : FileTree → Except StepFault FileTree) : OnDisk Unit :=
  ExceptT.mk (modifyGet (Disk.take action))

def attempt {α : Type} (action : OnDisk α) : OnDisk (Except StepFault α) :=
  ExceptT.mk do return .ok (← action.run)

def makeDirectory (path : Path) : OnDisk Unit := do
  let working := (← get).working
  step fun tree => do tree.makeDirectory (← tree.locate working path)

def writeFile (path : Path) (text : String) : OnDisk Unit := do
  let working := (← get).working
  step fun tree => do tree.writeFile (← tree.locate working path) text

def rename (source target : Path) : OnDisk Unit := do
  let working := (← get).working
  step fun tree => do
    tree.rename (← tree.locate working source) (← tree.locate working target)

/-- Creates a directory unless there is one; what to do if the directory above is missing is
given. -/
def createOr (path : Path) (onMissing : OnDisk Unit) : OnDisk Unit := do
  match ← attempt (makeDirectory path) with
  | .ok _ => return ()
  | .error .missing => onMissing
  | .error fault => if (← get).isDirectory path then return () else throw fault

def ensureDirectory (path : Path) : OnDisk Unit :=
  createOr path (throw .missing)

/-- Creates a directory, given by its root and its names from the last one on, and before it those
above that are missing. -/
def ensureFrom (root : String) : List String → OnDisk Unit
  | [] => ensureDirectory { root, names := [] }
  | name :: above =>
    let path : Path := { root, names := (name :: above).reverse }
    createOr path do
      ensureFrom root above
      ensureDirectory path

def ensureDirectories (path : Path) : OnDisk Unit :=
  ensureFrom path.root path.names.reverse

def makeTemporary (directory : Path) (front back : String) : OnDisk Path := do
  let path := directory.append (Path.ofText ((← get).freshName front back))
  makeDirectory path
  return path

end OnDisk

end Bindery

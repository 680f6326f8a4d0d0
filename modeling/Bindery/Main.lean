import Bindery.Command.Basic

/-!
# The program

The outer layer of the program gathers the world that a run sees, lets the run decide
what is written, and then carries that out.
-/

namespace Bindery.Program

open IO

def variableNames : List String :=
  ["NO_COLOR", "TERM"] ++ (Settings.textVariables ++ Settings.truthVariables).map (·.2)

def environment : IO (List (String × String)) :=
  variableNames.filterMapM fun name => do
    return (← getEnv name).map fun text => (name, text)

def readText? (location : String) : IO (Option String) := do
  try
    return some (← FS.readFile location)
  catch _ =>
    return none

def placeOf (location : String) : List String :=
  (Path.ofText location).names

def addFile (location : String) (tree : FileTree) : IO FileTree := do
  match ← readText? location with
  | none => return tree
  | some content => return tree.addFile (placeOf location) content

partial def addDocuments (working : List String) : List String → FileTree → IO FileTree
  | [], tree => return tree
  | location :: rest, tree => do
    let known := Location.isUrl location || (tree.file? (placeOf location)).isSome
    match ← if known then pure none else readText? location with
    | none => addDocuments working rest tree
    | some content =>
      let more := match Loading.ofFile location content with
        | .ok document => World.neighbours working location document
        | .error _ => []
      addDocuments working (more ++ rest) (tree.addFile (placeOf location) content)

/-- What stands for the text of a file that no run reads. -/
def unread : String := "\u0000"

partial def addItems (place : List String) (tree : FileTree) : IO FileTree := do
  let path := (← currentDir) / Path.absoluteText place
  if ← path.isDir then
    (← path.readDir).foldlM (fun tree entry => addItems (place ++ [entry.fileName]) tree)
      (tree.addDirectory place)
  else if (← path.pathExists) && !tree.has place then
    return tree.addFile place unread
  else return tree

def addWay (place : List String) (tree : FileTree) : IO FileTree :=
  (List.range place.length).foldlM (fun tree count => do
    let above := place.take count
    let path := (← currentDir) / Path.absoluteText above
    if ← path.isDir then return tree.addDirectory above
    else if (← path.pathExists) && !tree.has above then return tree.addFile above unread
    else return tree) tree

def gather (arguments : List String) : IO World := do
  let working := placeOf (← currentDir).toString
  let projectPlace := (Path.ofText Settings.projectFile).resolve working
  let tree ← addFile projectPlace (FileTree.addDirectory working {})
  let world : World :=
    { environment := ← environment
      terminal := ← (← getStdout).isTty
      disk := { tree, working } }
  let (input, output) : Option String × Option Path :=
    match Command.Request.ofArguments arguments with
    | .ok (.run _ (.inspect source _)) => (some source, none)
    | .ok (.run _ (.generate options)) =>
      match Command.settings world options with
      | .ok settings => (some settings.input, some (settings.output.append
          { root := "", names := [settings.package] }))
      | .error _ => (none, none)
    | _ => (none, none)
  let standardInput ← if input = some "-" then (← getStdin).readToEnd else pure ""
  let start := match input with
    | none => []
    | some "-" => ((Loading.ofInput standardInput).toOption.map
        (World.neighbours working "-")).getD []
    | some source => [Location.absolute working source]
  let tree ← addDocuments working start tree
  let tree ← match output with
    | none => pure tree
    | some path =>
      let place := path.resolveNames working
      addItems place (← addWay place tree)
  return { world with standardInput, disk := { tree, working } }

def removeOld (before after : FileTree) : IO Unit :=
  before.items.forM fun (place, item) => do
    let gone := after.item? place != some item
    let path := (← currentDir) / Path.absoluteText place
    if gone && (← path.pathExists) then
      if ← path.isDir then FS.removeDirAll path else FS.removeFile path

def createNew (before after : FileTree) : IO Unit :=
  after.items.forM fun (place, item) => do
    if before.item? place != some item then
      let path := Path.absoluteText place
      match item with
      | .directory => FS.createDirAll path
      | .file content => FS.writeFile path content

def run (arguments : List String) : IO UInt32 := do
  let world ← gather arguments
  let outcome := Command.runGuarded world arguments
  removeOld world.disk.tree outcome.disk.tree
  createNew world.disk.tree outcome.disk.tree
  (← getStdout).putStr outcome.written.data
  (← getStderr).putStr outcome.written.messages
  return UInt32.ofNat outcome.exitCode

end Bindery.Program

def main (arguments : List String) : IO UInt32 := do
  try
    Bindery.Program.run arguments
  catch fault =>
    (← IO.getStderr).putStrLn ("Error: " ++ toString fault)
    return 9

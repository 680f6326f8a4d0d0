import Bindery.Command.Arguments
import Bindery.Command.World
import Bindery.Generation
import Bindery.Inspection

/-!
# Running a command

A run takes the world as it is and gives what it wrote, the disk as it is
afterwards, and an exit code.  Only the outermost layer words an unexpected fault.
-/

namespace Bindery

namespace Command

structure Outcome where
  exitCode : Nat := 0
  written : Console.Written := {}
  disk : Disk
  unexpected : Option Fault := none

def versionLine : String := "specgen 0.1.0"

def usage : String :=
  Text.join "\n" ["Usage: specgen [--no-color] [-q] [-v] COMMAND [ARGUMENTS]", "",
    "  generate [INPUT]  Generate a package from an API description.",
    "  inspect INPUT     List the named types and operations of a description."]

def notes (console : Console) (journal : Journal) : Console.Written where
  messages := if console.verbose then
      String.join (journal.notes.map fun note => "[debug] specgen.pipeline: " ++ note ++ "\n")
    else ""

def failure (console : Console) (written : Console.Written) (diagnostics : List Diagnostic)
    (disk : Disk) (fault : Fault) : Outcome :=
  match fault.class? with
  | some faultClass =>
    { exitCode := faultClass.exitCode
      written := written ++ console.diagnostics diagnostics ++ console.error fault.message
      disk }
  | none => { exitCode := 1, written, disk, unexpected := some fault }

def generated (console : Console) (written : Console.Written) (diagnostics : List Diagnostic)
    (disk : Disk) (package : Generated) (directory : Path) : Outcome :=
  let survey := package.survey
  let summary :=
    console.info ("Read " ++ Text.decimal survey.fetchCount ++ " document(s), wrote " ++
      Text.decimal package.units.length ++ " files") ++
    console.success ("Generated " ++ Text.decimal survey.types.length ++ " types and " ++
      Text.decimal survey.operations.length ++ " operations into " ++ directory.text)
  { written := written ++ console.diagnostics diagnostics ++ summary, disk }

def settings (world : World) (options : Options) : Except Fault Settings :=
  let projectFile := Path.ofText Settings.projectFile
  Settings.resolve (projectFile.resolve world.disk.working) (world.file? projectFile)
    world.environment options

def generate (world : World) (console : Console) (options : Options) : Outcome :=
  match settings world options with
  | .error fault => failure console {} [] world.disk fault
  | .ok settings =>
    let opening :=
      console.debug ("Generating " ++ settings.package ++ " from " ++ settings.input)
    let outcome := Generation.run (world.library settings.input) settings world.disk
    let written := opening ++ notes console outcome.journal
    let diagnostics := outcome.journal.diagnostics
    match outcome.result with
    | .error fault => failure console written diagnostics outcome.disk fault
    | .ok (package, directory) =>
      generated console written diagnostics outcome.disk package directory

def inspected (console : Console) (asJson : Bool) (survey : Survey)
    (diagnostics : List Diagnostic) : Except Fault Console.Written := do
  if asJson then return Console.value (← survey.inspection diagnostics)
  else return console.table (← survey.typeTable) ++ console.table survey.operationTable ++
    console.diagnostics diagnostics

def inspect (world : World) (console : Console) (source : String) (asJson : Bool) : Outcome :=
  let (result, journal) :=
    (Survey.ofInput (world.library source) world.disk.working source).start {}
  let written := notes console journal
  match result with
  | .error fault => failure console written journal.diagnostics world.disk fault
  | .ok survey =>
    match inspected console asJson survey journal.diagnostics with
    | .error fault => { exitCode := 1, written, disk := world.disk, unexpected := some fault }
    | .ok shown => { written := written ++ shown, disk := world.disk }

def perform (world : World) (console : Console) : Task → Outcome
  | .generate options => generate world console options
  | .inspect source asJson => inspect world console source asJson

def answer (act : Console → Task → Outcome) (world : World) (arguments : List String) : Outcome :=
  match Request.ofArguments arguments with
  | .error fault =>
    { exitCode := 2
      written := { messages := usage ++ "\n\nError: " ++ fault.message ++ "\n" }
      disk := world.disk }
  | .ok .version => { written := Console.line versionLine, disk := world.disk }
  | .ok .help => { written := Console.line usage, disk := world.disk }
  | .ok (.run wishes task) =>
    act (Console.ofWishes wishes world.environment world.terminal) task

def Outcome.explain (outcome : Outcome) (console : Console) : Outcome :=
  match outcome.unexpected with
  | none => outcome
  | some fault =>
    { outcome with
      written := outcome.written ++ console.error ("Unexpected error: " ++ fault.message)
      unexpected := none }

def run (world : World) (arguments : List String) : Outcome :=
  answer (perform world) world arguments

def runGuarded (world : World) (arguments : List String) : Outcome :=
  answer (fun console task => (perform world console task).explain console) world arguments

end Command

end Bindery

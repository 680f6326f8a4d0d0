import Bindery.Package.Emit
import Bindery.Package.Install
import Bindery.Settings.Basic
import Bindery.Survey

/-!
# Generating a package

A package is generated from a survey: every named type is compiled, every
operation is bound, the units are emitted, and then they are installed in one
step.  Nothing is installed if an earlier part fails.
-/

namespace Bindery

structure Generated where
  survey : Survey
  bindings : List Binding
  units : List Package.SourceUnit

namespace Survey

/-- What types are compiled in: the named types, and whether objects refuse unknown keys. -/
def scope (survey : Survey) (settings : Settings) : Code.Scope where
  types := survey.types.map fun type => (type.name, type.node)
  strict := settings.strictObjects

def compileTypes (survey : Survey) (settings : Settings) :
    Journaled (List (NamedType × Code.TypeFragment)) :=
  Journaled.compiling (survey.types.mapM fun type => do
    return (type, ← Code.compile (survey.scope settings) false type.name type.node))

def authHeaders (survey : Survey) : Except Fault (List String) := do
  let components ← survey.document.components.needEntries
  Security.documentHeaders ((components.present? "securitySchemes").getD (.map []))

def surface (settings : Settings) : Binding.Surface where
  client := settings.client
  server := settings.server
  forceValidation := settings.forceValidation

def bind (survey : Survey) (settings : Settings) (authHeaders : List String) :
    Journaled (List Binding) :=
  Journaled.compiling (survey.operations.mapM fun operation =>
    Binding.ofOperation (survey.scope settings) (surface settings) authHeaders operation)

def generate (survey : Survey) (settings : Settings) : Journaled Generated := do
  let types ← survey.compileTypes settings
  let authHeaders ← Run.ofExcept survey.authHeaders
  let bindings ← survey.bind settings authHeaders
  let units ← Run.ofExcept (Package.emit survey.document types bindings settings.server)
  return { survey, bindings, units }

end Survey

namespace Generated

def site (settings : Settings) : Package.Site where
  directory := settings.output
  package := settings.package

def install (generated : Generated) (settings : Settings) : Run Disk Path :=
  Package.install (generated.units.map .ok) (site settings)

def writtenNote (generated : Generated) (directory : Path) : String :=
  "Wrote " ++ Text.decimal generated.units.length ++ " files to " ++ directory.text

end Generated

namespace Generation

/-- What a run leaves behind: the package and its directory or the fault that stopped the run, the
journal, and the disk. -/
structure Outcome where
  result : Except Fault (Generated × Path)
  journal : Journal
  disk : Disk

def run (library : Library) (settings : Settings) (disk : Disk) : Outcome :=
  let prepared : Journaled Generated := do
    (← Survey.ofInput library disk.working settings.input).generate settings
  match prepared.start {} with
  | (.error fault, journal) => { result := .error fault, journal, disk }
  | (.ok generated, journal) =>
    match (generated.install settings).start disk with
    | (.error fault, disk) => { result := .error fault, journal, disk }
    | (.ok directory, disk) =>
      { result := .ok (generated, directory)
        journal := { journal with notes := journal.notes ++ [generated.writtenNote directory] }
        disk }

end Generation

end Bindery

import Bindery.Code.Primitive
import Bindery.Dialect.Normal
import Bindery.Operation.Analysis
import Bindery.Schema.Named

/-!
# The survey of a document

A survey loads a root document, resolves everything it refers to, and gives the types
their final names.  A run keeps a journal, which stays when the run stops.
-/

namespace Bindery

structure Journal where
  diagnostics : List Diagnostic := []
  notes : List String := []
deriving DecidableEq, Repr

abbrev Journaled := Run Journal

namespace Journaled

def report (diagnostics : List Diagnostic) : Journaled Unit :=
  modify fun journal => { journal with diagnostics := journal.diagnostics ++ diagnostics }

def note (text : String) : Journaled Unit :=
  modify fun journal => { journal with notes := journal.notes ++ [text] }

/-- Runs a step of resolving from its first findings; what it found is kept in any case. -/
def resolving {α : Type} (step : Resolving α) (findings : Findings) :
    Journaled (α × Findings) := do
  let (result, findings) := step.start findings
  report findings.diagnostics
  return (← Run.ofExcept result, findings)

def compiling {α : Type} (step : Compilation α) : Journaled α := do
  let (result, diagnostics) := step.start []
  report diagnostics
  Run.ofExcept result

end Journaled

structure Survey where
  document : NormalDocument
  types : List NamedType
  operations : List Operation
  skipped : List String
  fetchCount : Nat
deriving DecidableEq

namespace Survey

def resolve (sources : Sources) : Resolving (List Operation × Registry) := do
  Resolving.prefetch sources
  Resolving.components sources
  let operations ← Analysis.operations sources
  let registry ← Resolving.finish sources
  return (operations, registry)

def name (document : NormalDocument) (operations : List Operation) (registry : Registry)
    (fetchCount : Nat) : Survey × List Diagnostic :=
  let (operations, dropped) := Operation.dropDependents registry.skipped operations
  let (names, renamed) := Naming.assignNames registry.proposals
  ({ document
     types := registry.namedTypes names
     operations := operations.map (Operation.rename names)
     skipped := registry.skipped
     fetchCount }, dropped ++ renamed)

def normalNote (document : NormalDocument) : String :=
  "Normalized " ++ document.location ++ " from dialect " ++ document.dialect.text

def resolvedNote (survey : Survey) : String :=
  "Resolved " ++ Text.decimal survey.types.length ++ " named types and " ++
    Text.decimal survey.operations.length ++ " operations (" ++
    Text.decimal survey.fetchCount ++ " external fetches)"

def ofInput (library : Library) (working : List String) (input : String) : Journaled Survey := do
  let raw ← Run.ofExcept (library.load input)
  let (document, diagnostics) ←
    Run.ofExcept (NormalDocument.ofDocument raw (Location.absolute working input))
  Journaled.report diagnostics
  Journaled.note (normalNote document)
  let sources := Sources.of library working document
  let ((operations, registry), findings) ←
    Journaled.resolving (resolve sources) (Findings.start sources)
  let (survey, diagnostics) := name document operations registry findings.cache.fetchCount
  Journaled.report diagnostics
  Journaled.note (resolvedNote survey)
  return survey

end Survey

end Bindery

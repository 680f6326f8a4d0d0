import Bindery.Dialect.Normal
import Bindery.Package.Combinators
import Bindery.Package.Index
import Bindery.Package.Support

/-!
# Emitting a package

All units of a package, in a fixed order: the two units that are the same in
every package, the named types, the operations, and the indexes.  Before that,
every type that something depends on is checked to have a unit of its own.
-/

namespace Bindery.Package

open Code

def modulesOf (types : List (NamedType × TypeFragment)) : Modules :=
  types.map fun (type, _) => (type.name, type.module)

/-- The first name of some dependencies that has no unit. -/
def missing? (modules : Modules) (dependencies : List String) : Option String :=
  (sortNames dependencies).find? fun name => (modules.lookup name).isNone

/-- The first dependency that has no unit, with what depends on it. -/
def dangling? (modules : Modules) (types : List (NamedType × TypeFragment))
    (bindings : List Binding) : Option (String × String) :=
  (types.findSome? fun (type, fragment) =>
    (missing? modules fragment.dependencies).map fun name => (type.name, name)).or
  (bindings.findSome? fun binding =>
    (missing? modules binding.merged.dependencies).map fun name =>
      ("operation " ++ binding.operation.id, name))

def titleOf (document : NormalDocument) : Except Fault String := do
  let title ← document.title
  return if title = "" then "API" else title

/-- The version of an API behind its title, if it has one. -/
def versionOf (document : NormalDocument) : Except Fault String := do
  let info ← Value.entriesOrNone (document.root.get? "info")
  return match info.present? "version" with
    | some version => " " ++ docLine version.text
    | none => ""

def emit (document : NormalDocument) (types : List (NamedType × TypeFragment))
    (bindings : List Binding) (server : Bool) : Except Fault (List SourceUnit) := do
  let modules := modulesOf types
  match dangling? modules types bindings with
  | some (owner, name) => throw (.generation (.dangling owner name))
  | none =>
    let title ← titleOf document
    let servers := (← document.servers).map (·.url)
    let version ← versionOf document
    return [runtimeUnit title, supportUnit title servers] ++
      types.map (fun (type, fragment) => typeUnit modules type fragment) ++
      bindings.map (operationUnit modules) ++
      [schemaIndex title (types.map (·.1)), operationIndex title bindings server,
        packageIndex title version document.location server]

end Bindery.Package

import Bindery.Naming.Assignment
import Bindery.Resolution.Registry

/-!
# Named types

A named type is a registered schema with its final name.  The names of all
registered schemas are assigned together, and then every reference in a schema
is renamed to the final name of its target.
-/

namespace Bindery

/-- A schema with its final name, the module that holds it, and the key it is registered under. -/
structure NamedType where
  name : String
  module : String
  node : Node
  location : String
deriving DecidableEq

namespace Registry

def proposals (registry : Registry) : List (String × String) :=
  registry.entries.map fun entry => (entry.key, entry.proposed)

def namedType? (registry : Registry) (names : List (String × String)) (key : String) :
    Option NamedType := do
  let entry ← registry.get? key
  let node ← entry.standing.node?
  let name ← names.lookup key
  return { name, module := Naming.snakeCase name, node := node.rename names, location := key }

def namedTypes (registry : Registry) (names : List (String × String)) : List NamedType :=
  registry.completion.filterMap (registry.namedType? names)

end Registry

end Bindery

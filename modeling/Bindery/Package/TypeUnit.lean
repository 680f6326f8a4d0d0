import Bindery.Code.Mention
import Bindery.Code.Primitive
import Bindery.Package.Unit
import Bindery.Schema.Named

/-!
# The unit of a named type

A named type is registered in a unit of its own, which imports the runtime names
and the named types that its expression mentions.
-/

namespace Bindery.Package

open Text Code

abbrev Modules := List (String × String)

def schemaImports (modules : Modules) (names : List String) : List (String × String) :=
  let found := names.eraseDups.filterMap fun name =>
    (modules.lookup name).map fun module => (module, name)
  found.mergeSort fun a b => decide (a.1 < b.1) || (a.1 == b.1 && decide (a.2 ≤ b.2))

def titled (title : String) (description : Option String) : String :=
  match description with
  | none => title
  | some text => if text = "" then title else title ++ ": " ++ docLine text

def typeRuntime (code : String) : List String :=
  sortNames ("register" :: runtimeMentions [code])

def typeDoc (type : NamedType) : String :=
  docstring (titled type.name type.node.note.description)
    ["Compiled from " ++ docLine type.location ++ ".", generatedBy ++ ". Do not edit."]

def typeUnit (modules : Modules) (type : NamedType) (fragment : TypeFragment) : SourceUnit :=
  let code := fragment.code.text
  .ofLines ("schemas/" ++ type.module ++ ".py") (typeDoc type)
    (["", "from .._runtime import " ++ join ", " (typeRuntime code)] ++
      ((schemaImports modules fragment.imports).map fun (module, name) =>
        "from ." ++ module ++ " import " ++ name) ++
      ["", type.name ++ " = register(" ++ quoted type.name ++ ", " ++ code ++ ")"])

end Bindery.Package

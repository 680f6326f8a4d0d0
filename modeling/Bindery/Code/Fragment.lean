import Bindery.Value.Basic

/-!
# Fragments of code

A fragment is a piece of code together with the named types it mentions.  When
fragments are combined, a name stays forward only if no part needs it imported.
-/

namespace Bindery

/-- Code with the named types it mentions, and the default value it carries. -/
structure Fragment (Code : Type) where
  code : Code
  dependencies : List String := []
  forward : List String := []
  default : Option Value := none

namespace Fragment

variable {Code : Type}

def imports (fragment : Fragment Code) : List String :=
  fragment.dependencies.filter fun name => !fragment.forward.contains name

def combine {Part : Type} (code : Code) (parts : List (Fragment Part)) : Fragment Code :=
  let direct := (parts.flatMap imports).eraseDups
  let forward := ((parts.flatMap (·.forward)).filter fun name => !direct.contains name).eraseDups
  { code, dependencies := direct ++ forward, forward }

def direct (code : Code) (name : String) : Fragment Code :=
  { code, dependencies := [name] }

def deferred (code : Code) (name : String) : Fragment Code :=
  { code, dependencies := [name], forward := [name] }

def withDefault (default : Option Value) (fragment : Fragment Code) : Fragment Code :=
  { fragment with default := fragment.default.or default }

end Fragment

end Bindery

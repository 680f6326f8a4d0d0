import Bindery.Diagnostic
import Bindery.Naming.Reserved
import Bindery.Naming.Words

/-!
# Assigning names

Names are made distinct by numbers: of the sequence `base`, `base2`, `base3`, …
the first available one is taken.  Only finitely many members of the sequence
can be unavailable, so a bounded search finds it.
-/

namespace Bindery.Naming

/-- The `index`-th name of the sequence `base`, `base2`, `base3`, … counted from zero. -/
def numbered (base : String) (index : Nat) : String :=
  if index = 0 then base else base ++ Text.decimal (index + 1)

/-- The first available name among the first `bound` of the sequence, or the one after them. -/
def firstAvailable (isAvailable : String → Bool) (base : String) (bound : Nat) : String :=
  match (List.range bound).find? fun index => isAvailable (numbered base index) with
  | some index => numbered base index
  | none => numbered base bound

/-- The argument name for a raw name before numbers: no keyword and not reserved. -/
def argumentBase (raw : String) : String :=
  let base := snakeCase raw
  if isKeyword base || isReserved base then base ++ "_" else base

def argumentName (raw : String) (taken : List String) : String :=
  firstAvailable (fun name => !taken.contains name) (argumentBase raw) taken.length

def isAvailableType (earlier : List String) (name : String) : Bool :=
  let module := snakeCase name
  !isReserved name && !earlier.contains name && !(earlier.map snakeCase).contains module &&
    !isKeyword module && module.toList.head? != some '_'

def typeName (earlier : List String) (proposed : String) : String :=
  firstAvailable (isAvailableType earlier) (pascalCase proposed)
    (reserved.length + 2 * earlier.length + 1)

def collision (key base name : String) : Diagnostic where
  code := .identifierCollision
  message := "Type '" ++ base ++ "' renamed to '" ++ name ++ "'"
  location := some key

/-- Names types, given by their keys and proposed names, after the earlier names. -/
def assignAfter (earlier : List String) :
    List (String × String) → List (String × String) × List Diagnostic
  | [] => ([], [])
  | (key, proposed) :: rest =>
    let name := typeName earlier proposed
    let base := pascalCase proposed
    let report := if name = base then [] else [collision key base name]
    let (names, reports) := assignAfter (earlier ++ [name]) rest
    ((key, name) :: names, report ++ reports)

/-- The name of each key, and the reports of renamed types. -/
def assignNames (types : List (String × String)) : List (String × String) × List Diagnostic :=
  assignAfter [] types

end Bindery.Naming

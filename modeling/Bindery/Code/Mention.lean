import Bindery.Naming.Reserved

/-!
# Names mentioned in code

The names of the runtime unit that a piece of code mentions.  Every identifier
in the text counts, also inside quoted text, so a unit may import a name it does
not need but never misses one.
-/

namespace Bindery.Code

def isNameStart (c : Char) : Bool :=
  c.isAlpha || c == '_'

def isNameChar (c : Char) : Bool :=
  c.isAlphanum || c == '_'

/-- The identifiers in a text; `current` holds the one being read, last character first. -/
def identifiersFrom (current : List Char) : List Char → List String
  | [] => if current.isEmpty then [] else [String.ofList current.reverse]
  | c :: rest =>
    if current.isEmpty then
      if isNameStart c then identifiersFrom [c] rest else identifiersFrom [] rest
    else if isNameChar c then identifiersFrom (c :: current) rest
    else String.ofList current.reverse :: identifiersFrom [] rest

def identifiers (code : String) : List String :=
  identifiersFrom [] code.toList

def sortNames (names : List String) : List String :=
  (names.mergeSort fun a b => a ≤ b).eraseDups

def runtimeMentions (codes : List String) : List String :=
  let mentioned := codes.flatMap identifiers
  sortNames (Naming.runtimeNames.filter mentioned.contains)

end Bindery.Code

import Bindery.Text.Basic
import Bindery.Text.Case

/-!
# Words and cases of names

The words of a raw name are the longest runs of ASCII letters and digits.  Names of
types join them with capital initials, names of modules in lower case with
underscores.
-/

namespace Bindery.Naming

def isWordChar (c : Char) : Bool :=
  c.isAlphanum

/-- The words of a raw name.  `current` holds the word being read, last character first. -/
def wordsFrom (current : List Char) : List Char → List (List Char)
  | [] => if current.isEmpty then [] else [current.reverse]
  | c :: rest =>
    if isWordChar c then wordsFrom (c :: current) rest
    else if current.isEmpty then wordsFrom [] rest
    else current.reverse :: wordsFrom [] rest

def words (raw : String) : List (List Char) :=
  wordsFrom [] raw.toList

/-- The word with a capital initial; the rest keeps its case. -/
def capitalizeWord : List Char → List Char
  | [] => []
  | c :: rest => c.toUpper :: rest

def joinedWords (raw : String) : List Char :=
  (words raw).flatMap capitalizeWord

/-- The name of a type for a raw name, with a fallback for a raw name without words. -/
def pascalCase (raw : String) (fallback : String := "Schema") : String :=
  match joinedWords raw with
  | [] => fallback
  | c :: rest =>
    if c.isDigit then String.ofList (fallback.toList.take 1 ++ c :: rest)
    else String.ofList (c :: rest)

/-- The name of a type, if the fallback has the letter that a name needs in front of a digit. -/
def pascalCase? (raw fallback : String) : Option String :=
  match joinedWords raw, fallback.toList with
  | c :: _, [] => if c.isDigit then none else some (pascalCase raw fallback)
  | _, _ => some (pascalCase raw fallback)

def decapitalize (text : String) : String :=
  match text.toList with
  | [] => ""
  | c :: rest => String.ofList (Text.lowerAfter [] [c] ++ rest)

def camelCase (raw : String) (fallback : String := "operation") : String :=
  decapitalize (pascalCase raw (Text.capitalize fallback))

/-- The name of an operation, if the fallback is not empty where it is needed. -/
def camelCase? (raw fallback : String) : Option String :=
  match pascalCase? raw (Text.capitalize fallback) with
  | none => none
  | some name => if name.toList.isEmpty then none else some (decapitalize name)

/-- Whether a word splits between two characters: a capital follows a small letter or digit,
or a capital that starts a new small-letter run follows a capital. -/
def splitsBetween (before after : Char) (next : Option Char) : Bool :=
  ((before.isLower || before.isDigit) && after.isUpper) ||
    (before.isUpper && after.isUpper && next.any Char.isLower)

/-- The parts of a word.  `current` holds the part being read, last character first. -/
def splitWord (current : List Char) : List Char → List (List Char)
  | [] => [current.reverse]
  | c :: rest =>
    match current with
    | [] => splitWord [c] rest
    | before :: _ =>
      if splitsBetween before c rest.head? then current.reverse :: splitWord [c] rest
      else splitWord (c :: current) rest

/-- The characters of the module name of a raw name, before the fallback rules. -/
def joinedParts (raw : String) : List Char :=
  let parts := ((words raw).flatMap (splitWord [])).filter (!·.isEmpty)
  ['_'].intercalate (parts.map fun part => part.map Char.toLower)

def snakeCase (raw : String) : String :=
  match joinedParts raw with
  | [] => "value"
  | c :: rest =>
    if c.isDigit then String.ofList ('n' :: c :: rest) else String.ofList (c :: rest)

end Bindery.Naming

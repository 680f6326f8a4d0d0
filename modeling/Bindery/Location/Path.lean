import Bindery.Text.Basic

/-!
# File paths

A path is a root and the names behind it.  Double dots stay when a path is read,
because what they mean depends on the directory they follow.
-/

namespace Bindery

/-- A file path: its root, which is empty for a relative path, and its names. -/
structure Path where
  root : String
  names : List String
deriving DecidableEq, Repr

namespace Path

/-- Reads a path.  Two leading slashes, but not three, are a root of their own. -/
def ofText (text : String) : Path where
  root :=
    match text.toList with
    | '/' :: '/' :: '/' :: _ => "/"
    | '/' :: '/' :: _ => "//"
    | '/' :: _ => "/"
    | _ => ""
  names := (Text.split '/' text).filter fun name => name ≠ "" ∧ name ≠ "."

def text (path : Path) : String :=
  if path.root = "" ∧ path.names = [] then "." else path.root ++ Text.join "/" path.names

def isAbsolute (path : Path) : Bool :=
  path.root != ""

def parent (path : Path) : Path :=
  { path with names := path.names.dropLast }

def append (base target : Path) : Path :=
  if target.isAbsolute then target else { base with names := base.names ++ target.names }

/-- Follows names from a directory given by its names; a double dot goes one level up. -/
def follow (directory : List String) : List String → List String
  | [] => directory
  | name :: rest =>
    if name = ".." then follow directory.dropLast rest else follow (directory ++ [name]) rest

/-- The names from the root on, with double dots taken away, seen from a working directory. -/
def resolveNames (working : List String) (path : Path) : List String :=
  follow (if path.isAbsolute then [] else working) path.names

def absoluteText (names : List String) : String :=
  "/" ++ Text.join "/" names

def resolve (working : List String) (path : Path) : String :=
  absoluteText (resolveNames working path)

def name (path : Path) : String :=
  path.names.getLast?.getD ""

/-- Splits a name at its last dot, unless the dot is its first or last character. -/
def splitName (name : String) : String × String :=
  let chars := name.toList
  let tail := chars.reverse.takeWhile (· != '.')
  let stem := chars.take (chars.length - tail.length - 1)
  if tail.isEmpty ∨ stem.isEmpty ∨ tail.length = chars.length then (name, "")
  else (String.ofList stem, String.ofList ('.' :: tail.reverse))

def stem (path : Path) : String :=
  (splitName path.name).1

def suffix (path : Path) : String :=
  (splitName path.name).2

end Path

end Bindery

import Bindery.Text.Blank
import Bindery.Text.Quoted

/-!
# Source units

A source unit is one file of the emitted package, with its path in the package.
A unit is a docstring and the lines behind it.  Text of the document stands in
docstrings only by its first line, with backslashes and triple quotes escaped.
-/

namespace Bindery.Package

open Text

structure SourceUnit where
  path : String
  content : String
deriving DecidableEq, Repr

def escapeDoc : List Char → List Char
  | [] => []
  | '"' :: '"' :: '"' :: rest => ['\\', '"', '\\', '"', '\\', '"'] ++ escapeDoc rest
  | '\\' :: rest => '\\' :: '\\' :: escapeDoc rest
  | c :: rest => c :: escapeDoc rest

def docLine (text : String) : String :=
  String.ofList (escapeDoc (firstLine (trim text)).toList)

def formatSource (code : String) : String :=
  trimEnd code ++ "\n"

def SourceUnit.ofLines (path doc : String) (lines : List String) : SourceUnit where
  path := path
  content := doc ++ formatSource ("\n" ++ join "\n" lines)

def generatedBy : String := "Generated by specgen 0.1.0"

def tripleQuote : String := "\"\"\""

def docBlock (indent : String) (lines : List String) : String :=
  indent ++ tripleQuote ++ join "\n" lines ++ "\n" ++ indent ++ tripleQuote

def docstring (title : String) (lines : List String) : String :=
  docBlock "" ([title, ""] ++ lines)

def textList (texts : List String) : String :=
  "[" ++ join ", " (texts.map quoted) ++ "]"

def textTuple : List String → String
  | [text] => "(" ++ quoted text ++ ",)"
  | texts => "(" ++ join ", " (texts.map quoted) ++ ")"

end Bindery.Package

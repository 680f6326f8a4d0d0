import Bindery.Text.Basic

/-!
# Blank characters and line ends

Blank characters are those with the Unicode white-space property together with the
four information separators.
-/

namespace Bindery.Text

def blankRanges : List (Nat × Nat) :=
  [(9, 13), (28, 32), (133, 133), (160, 160), (5760, 5760), (8192, 8202), (8232, 8233),
    (8239, 8239), (8287, 8287), (12288, 12288)]

def isBlank (c : Char) : Bool :=
  inRanges blankRanges c.toNat

def isLineEnd (c : Char) : Bool :=
  inRanges [(10, 13), (28, 30), (133, 133), (8232, 8233)] c.toNat

def trimEnd (text : String) : String :=
  String.ofList (dropEndWhile isBlank text.toList)

def trim (text : String) : String :=
  String.ofList (dropEndWhile isBlank (text.toList.dropWhile isBlank))

def isBlankText (text : String) : Bool :=
  text.toList.all isBlank

def firstLine (text : String) : String :=
  String.ofList (text.toList.takeWhile fun c => !isLineEnd c)

/-- Turns the line ends of files into line feeds: a carriage return with a line feed, or alone. -/
def unifyLineEndChars : List Char → List Char
  | '\r' :: '\n' :: rest => '\n' :: unifyLineEndChars rest
  | '\r' :: rest => '\n' :: unifyLineEndChars rest
  | c :: rest => c :: unifyLineEndChars rest
  | [] => []

def unifyLineEnds (text : String) : String :=
  String.ofList (unifyLineEndChars text.toList)

end Bindery.Text

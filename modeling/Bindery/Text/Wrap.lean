import Bindery.Text.Columns

/-!
# Wrapping lines

A line that is wider than the space for it is broken between words, which are kept
together with the blanks after them.
-/

namespace Bindery.Text

/-- The words of a line, each with the blanks after it; the first has those before it too. -/
def wordsOfLine (line : List Char) : List (List Char) :=
  let lead := line.takeWhile isBlank
  let afterLead := line.dropWhile isBlank
  match _body : afterLead with
  | [] => []
  | c :: rest =>
    let word := c :: rest.takeWhile (fun d => !isBlank d)
    let afterWord := rest.dropWhile (fun d => !isBlank d)
    let tail := afterWord.takeWhile isBlank
    (lead ++ word ++ tail) :: wordsOfLine (afterWord.dropWhile isBlank)
termination_by line.length
decreasing_by
  have whole : afterLead.length ≤ line.length := (List.dropWhile_sublist _).length_le
  have inner : ((rest.dropWhile (fun d => !isBlank d)).dropWhile isBlank).length ≤ rest.length :=
    ((List.dropWhile_sublist _).trans (List.dropWhile_sublist _)).length_le
  rw [_body, List.length_cons] at whole
  omega

def chop (width : Nat) : (used : Nat) → (piece : List Char) → List Char → List (List Char)
  | _, piece, [] => [piece]
  | used, piece, c :: rest =>
    if used + charColumns c ≤ width then chop width (used + charColumns c) (piece ++ [c]) rest
    else piece :: chop width (charColumns c) [c] rest

/-- A line that is being broken: the finished pieces, the piece under way, and the columns that it
takes. -/
structure Breaking where
  finished : List (List Char) := []
  piece : List Char := []
  used : Nat := 0

namespace Breaking

def isFresh (breaking : Breaking) : Bool :=
  breaking.finished.isEmpty && breaking.piece.isEmpty

def extend (word : List Char) (breaking : Breaking) : Breaking :=
  { breaking with piece := breaking.piece ++ word, used := breaking.used + columns word }

/-- Starts a new piece, unless nothing was placed yet. -/
def start (word : List Char) (breaking : Breaking) : Breaking :=
  if breaking.isFresh then { piece := word, used := columns word }
  else
    { finished := breaking.finished ++ [breaking.piece]
      piece := word
      used := columns word }

def place (overflow : Overflow) (width : Nat) (breaking : Breaking) (word : List Char) :
    Breaking :=
  let wordWidth := columns (dropEndWhile isBlank word)
  if breaking.used + wordWidth ≤ width then breaking.extend word
  else if wordWidth ≤ width then breaking.start word
  else
    match overflow with
    | .fold => (chop width 0 [] word).foldl (fun breaking piece => breaking.start piece) breaking
    | .dots => breaking.start word

def pieces (breaking : Breaking) : List (List Char) :=
  breaking.finished ++ [breaking.piece]

end Breaking

/-- Cuts the blanks at the end of a piece that stand beyond a width. -/
def cutBlanks (width : Nat) (piece : List Char) : List Char :=
  let blanks := (piece.reverse.takeWhile isBlank).length
  piece.take (piece.length - min blanks (piece.length - width))

def breakLine (overflow : Overflow) (width : Nat) (line : List Char) : List (List Char) :=
  let pieces := match wordsOfLine line with
    | [] => [line]
    | words => (words.foldl (Breaking.place overflow width) {}).pieces
  pieces.map (cutBlanks width)

def expandTabs : (used : Nat) → List Char → List Char
  | _, [] => []
  | used, c :: rest =>
    if c = '\t' then
      let spaces := 8 - used % 8
      List.replicate spaces ' ' ++ expandTabs (used + spaces) rest
    else c :: expandTabs (used + charColumns c) rest

/-- Whether a terminal would act on a character instead of showing it. -/
def isTerminalControl (c : Char) : Bool :=
  [7, 8, 11, 12, 13].contains c.toNat

def dropControls (text : List Char) : List Char :=
  text.filter fun c => !isTerminalControl c

def wrap (overflow : Overflow) (width : Nat) (text : List Char) : List (List Char) :=
  (splitChars '\n' text).flatMap fun line => breakLine overflow width (expandTabs 0 line)

end Bindery.Text

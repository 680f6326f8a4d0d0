import Bindery.Console.Markup
import Bindery.Number.Total
import Bindery.Text.Wrap

/-!
# Grids

A grid is a table drawn with lines around its cells.  If it would be wider than the
screen, the widest columns give up columns first, and their text is wrapped.
-/

namespace Bindery.Console

open Text List

/-- The styles of a grid; an absent style leaves the text as it is. -/
structure GridStyle where
  title : Option String := none
  heading : Option String := none

namespace GridStyle

def ofTerminal (coloured : Bool) : GridStyle where
  title := some "3"
  heading := some (if coloured then "1;36" else "1")

end GridStyle

def styled (style : Option String) (text : List Char) : List Char :=
  match style with
  | none => text
  | some code =>
    if text.isEmpty then []
    else "\x1b[".toList ++ code.toList ++ ['m'] ++ text ++ "\x1b[0m".toList

structure Table where
  headings : List String
  rows : List (List String)
  title : Option String := none

namespace Table

/-- The number of columns: the headings, and what the longest row has beyond them. -/
def columnCount (table : Table) : Nat :=
  (table.rows.map length).foldl max table.headings.length

def cells (table : Table) (row : List (List Char)) : List (List Char) :=
  (range table.columnCount).map fun index => dropControls ((row[index]?).getD [])

def headingCells (table : Table) : List (List Char) :=
  table.cells (table.headings.map String.toList)

def rowCells (table : Table) : List (List (List Char)) :=
  table.rows.map fun row => table.cells (row.map fun cell => shown none cell.toList)

end Table

def linesOf : List Char → List (List Char)
  | [] => [[]]
  | c :: rest =>
    match linesOf rest with
    | [] => [[c]]
    | line :: lines => if isLineEnd c then [] :: line :: lines else (c :: line) :: lines

def cellWidth (cell : List Char) : Nat :=
  ((linesOf cell).map columns).foldl max 0

/-- The natural width of every column, with a space on either side. -/
def naturalWidths (rows : List (List (List Char))) (count : Nat) : List Nat :=
  (range count).map fun index =>
    (rows.map fun row => cellWidth ((row[index]?).getD [])).foldl max 0 + 2

/-- A quotient rounded to the nearest number, a half to the even one. -/
def roundedQuotient (total parts : Nat) : Nat :=
  let quotient := total / parts
  let twice := 2 * (total % parts)
  if twice < parts then quotient
  else if parts < twice then quotient + 1
  else quotient + quotient % 2

/-- Takes an excess from the columns of the largest width, in equal parts of at most `limit`. -/
def shrinkLargest (largest limit : Nat) : (excess parts : Nat) → List Nat → List Nat
  | _, _, [] => []
  | excess, parts, width :: rest =>
    if width = largest then
      let part := min limit (roundedQuotient excess parts)
      (width - part) :: shrinkLargest largest limit (excess - part) (parts - 1) rest
    else width :: shrinkLargest largest limit excess parts rest

/-- Narrows the largest columns until the total is at most `limit`, in at most `fuel` rounds. -/
def narrow (limit : Nat) : (fuel : Nat) → List Nat → List Nat
  | 0, widths => widths
  | fuel + 1, widths =>
    let excess := total widths - limit
    let largest := widths.foldl max 0
    let second := (widths.filter (· != largest)).foldl max 0
    if excess = 0 ∨ largest = second then widths
    else
      narrow limit fuel
        (shrinkLargest largest (min excess (largest - second)) excess (widths.count largest) widths)

/-- The widths of the columns on a screen; lines stand around and between them. -/
def columnWidths (screen : Nat) (rows : List (List (List Char))) (count : Nat) : List Nat :=
  let limit := screen - (count + 1)
  let widths := (naturalWidths rows count).map (min limit)
  narrow limit (total widths - limit) widths

def ruler (left line between right : Char) (widths : List Nat) : List Char :=
  [left] ++ intercalate [between] (widths.map fun width => replicate width line) ++
    [right]

/-- The lines of a cell, each as wide as the column without the spaces beside it; a column that has
no room beside the spaces has no lines. -/
def cellLines (width : Nat) (cell : List Char) : List (List Char) :=
  if width ≤ 2 then []
  else
    (wrap .dots (width - 2) cell).map fun line =>
      padTo (width - 2) (Overflow.cut .dots (width - 2) line)

def besideSpaces (style : Option String) (line : List Char) : List Char :=
  styled style [' '] ++ styled style line ++ styled style [' ']

/-- The lines of a row; `top` says whether the text of a cell stands at its top or its bottom.  A
row without any text is one line without a style. -/
def rowLines (style : Option String) (edge : Char) (top : Bool) (widths : List Nat)
    (row : List (List Char)) : List (List Char) :=
  let cells := (widths.zip row).map fun (width, cell) => (width, cellLines width cell)
  let tallest := (cells.map fun cell => cell.2.length).foldl max 0
  let height := max tallest 1
  let filled := cells.map fun (width, lines) =>
    let drawn := lines.map (besideSpaces style)
    let blanks := replicate (height - lines.length)
      (styled (if tallest = 0 then none else style) (replicate width ' '))
    if top then drawn ++ blanks else blanks ++ drawn
  (range height).map fun index =>
    [edge] ++ intercalate [edge] (filled.map fun lines => (lines[index]?).getD []) ++ [edge]

def titleLines (style : Option String) (width : Nat) (title : String) : List (List Char) :=
  if title.isEmpty then []
  else
    (wrap .fold width (dropControls title.toList)).map fun line =>
      styled style (centre width (Overflow.cut .fold width (dropEndWhile isBlank line)))

def grid (style : GridStyle) (screen : Nat) (table : Table) : String :=
  let headings := table.headingCells
  let rows := table.rowCells
  let widths := columnWidths screen (headings :: rows) table.columnCount
  let lines :=
    if widths.isEmpty then [[]]
    else
      ((table.title.map (titleLines style.title (total widths + widths.length + 1))).getD []) ++
        [ruler '┏' '━' '┳' '┓' widths] ++
        rowLines style.heading '┃' false widths headings ++
        [ruler '┡' '━' '╇' '┩' widths] ++
        rows.flatMap (rowLines none '│' true widths) ++
        [ruler '└' '─' '┴' '┘' widths]
  String.ofList (lines.flatMap fun line => line ++ ['\n'])

end Bindery.Console

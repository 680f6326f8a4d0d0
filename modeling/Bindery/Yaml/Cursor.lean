import Bindery.Fault

/-!
# Places in a YAML text

A cursor stands at a place in a text and knows the text behind it, its line and its
column.  The end of the text shows as a null character.
-/

namespace Bindery.Yaml

inductive Trouble where
  | malformed (reason : String)
  /-- The text is well formed, but a value in it is out of range. -/
  | unusable (cause : ShapeFault)
deriving DecidableEq, Repr

structure Cursor where
  rest : List Char
  index : Nat := 0
  line : Nat := 0
  column : Nat := 0
deriving DecidableEq, Repr

def isBreak (c : Char) : Bool :=
  c == '\n' || c == '\r' || c == '\x85' || c == '\u2028' || c == '\u2029'

def isBreakOrEnd (c : Char) : Bool :=
  c == '\x00' || isBreak c

def isSpaceOrEnd (c : Char) : Bool :=
  c == ' ' || isBreakOrEnd c

def isBlankOrEnd (c : Char) : Bool :=
  c == '\t' || isSpaceOrEnd c

namespace Cursor

def start (text : String) : Cursor where
  rest := text.toList

def peek (cursor : Cursor) (offset : Nat := 0) : Char :=
  cursor.rest.getD offset '\x00'

def atEnd (cursor : Cursor) : Bool :=
  cursor.rest.isEmpty

def advance (cursor : Cursor) : Cursor :=
  match cursor.rest with
  | [] => cursor
  | c :: rest =>
    let index := cursor.index + 1
    if isBreak c && !(c == '\r' && rest.head? == some '\n') then
      { rest, index, line := cursor.line + 1, column := 0 }
    else
      { rest, index, line := cursor.line
        column := if c == '\uFEFF' then cursor.column else cursor.column + 1 }

def skip : (count : Nat) → Cursor → Cursor
  | 0, cursor => cursor
  | count + 1, cursor => skip count cursor.advance

def span (member : Char → Bool) (cursor : Cursor) : List Char × Cursor :=
  let chars := cursor.rest.takeWhile member
  (chars, cursor.skip chars.length)

def skipWhile (member : Char → Bool) (cursor : Cursor) : Cursor :=
  (cursor.span member).2

def skipSpaces (cursor : Cursor) : Cursor :=
  cursor.skipWhile (· == ' ')

def skipIndent (indent : Nat) (cursor : Cursor) : Cursor :=
  let spaces := (cursor.rest.takeWhile (· == ' ')).length
  cursor.skip (min spaces (indent - cursor.column))

/-- Goes over a line end, if one is ahead; most line ends count as a line feed. -/
def takeBreak (cursor : Cursor) : Option Char × Cursor :=
  match cursor.rest with
  | '\r' :: '\n' :: _ => (some '\n', cursor.skip 2)
  | c :: _ =>
    if c == '\u2028' || c == '\u2029' then (some c, cursor.advance)
    else if isBreak c then (some '\n', cursor.advance)
    else (none, cursor)
  | [] => (none, cursor)

def skipComment (cursor : Cursor) : Cursor :=
  if cursor.peek == '#' then cursor.skipWhile fun c => !isBreakOrEnd c else cursor

def endLine (cursor : Cursor) : Except Trouble Cursor :=
  let cursor := cursor.skipSpaces.skipComment
  if isBreakOrEnd cursor.peek then .ok cursor.takeBreak.2
  else .error (.malformed "expected a comment or a line break")

def atMarker (marker : List Char) (cursor : Cursor) : Bool :=
  (Text.afterFront? marker cursor.rest).isSome && isBlankOrEnd (cursor.peek 3)

def atSeparator (cursor : Cursor) : Bool :=
  cursor.atMarker ['-', '-', '-'] || cursor.atMarker ['.', '.', '.']

def isAllowed (c : Char) : Bool :=
  let code := c.toNat
  code == 0x09 || code == 0x0A || code == 0x0D || (0x20 ≤ code && code ≤ 0x7E) || code == 0x85 ||
    (0xA0 ≤ code && code ≤ 0xFFFD) || 0x10000 ≤ code

end Cursor

end Bindery.Yaml

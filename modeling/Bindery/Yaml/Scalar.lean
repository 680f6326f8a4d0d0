import Bindery.Json.Reader
import Bindery.Yaml.Cursor

/-!
# YAML scalars

A scalar is written plain, between quotes, or as a block.  Line ends inside a plain
or quoted scalar are folded.
-/

namespace Bindery.Yaml

/-- The text of a folded line end and the line ends behind it. -/
def folded (first : Char) (others : List Char) : List Char :=
  (if first != '\n' then [first] else if others.isEmpty then [' '] else []) ++ others

def isFlowMark (c : Char) : Bool :=
  c == ',' || c == '[' || c == ']' || c == '{' || c == '}'

def plainStretch (inFlow : Bool) : List Char → List Char
  | [] => []
  | c :: rest =>
    let next := rest.headD '\x00'
    if isBlankOrEnd c || (c == ':' && (isBlankOrEnd next || (inFlow && isFlowMark next))) ||
        (inFlow && (c == '?' || isFlowMark c)) then []
    else c :: plainStretch inFlow rest

/-- The line ends and spaces after a line of a plain scalar; nothing if a document ends there. -/
def plainBreaks : (fuel : Nat) → Cursor → Option (List Char) × Cursor
  | 0, cursor => (some [], cursor)
  | fuel + 1, cursor =>
    if cursor.peek == ' ' then plainBreaks fuel cursor.advance
    else
      match cursor.takeBreak with
      | (none, cursor) => (some [], cursor)
      | (some c, cursor) =>
        if cursor.atSeparator then (none, cursor)
        else
          let (others, cursor) := plainBreaks fuel cursor
          (others.map (c :: ·), cursor)

/-- What stands between two stretches of a plain scalar, and whether a line ends there. -/
def plainBetween (cursor : Cursor) : List Char × Bool × Cursor :=
  let (spaces, cursor) := cursor.span (· == ' ')
  match cursor.takeBreak with
  | (none, cursor) => (spaces, false, cursor)
  | (some first, cursor) =>
    if cursor.atSeparator then ([], true, cursor)
    else
      match plainBreaks (cursor.rest.length + 1) cursor with
      | (none, cursor) => ([], true, cursor)
      | (some others, cursor) => (folded first others, true, cursor)

structure PlainScalar where
  pieces : List (List Char) := []
  /-- Whether a line ended behind the last piece. -/
  broken : Bool := false
  cursor : Cursor

/-- Reads on in a plain scalar after what stands between two stretches. -/
def readPlainFrom (inFlow : Bool) (indent : Int) :
    (fuel : Nat) → (between : List Char) → PlainScalar → PlainScalar
  | 0, _, scalar => scalar
  | fuel + 1, between, scalar =>
    let stretch := plainStretch inFlow scalar.cursor.rest
    if scalar.cursor.peek == '#' || stretch.isEmpty then scalar
    else
      let (next, broken, cursor) := plainBetween (scalar.cursor.skip stretch.length)
      let scalar : PlainScalar := { pieces := stretch :: between :: scalar.pieces, broken, cursor }
      if next.isEmpty || cursor.peek == '#' || (!inFlow && (cursor.column : Int) < indent) then
        scalar
      else readPlainFrom inFlow indent fuel next scalar

/-- Reads a plain scalar: its text, whether a line ended behind it, and the cursor. -/
def readPlain (inFlow : Bool) (indent : Int) (cursor : Cursor) : String × Bool × Cursor :=
  let scalar := readPlainFrom inFlow (indent + 1) (cursor.rest.length + 1) [] { cursor }
  (String.ofList scalar.pieces.reverse.flatten, scalar.broken, scalar.cursor)

def quotedBreaks : (fuel : Nat) → Cursor → Except Trouble (List Char × Cursor)
  | 0, cursor => .ok ([], cursor)
  | fuel + 1, cursor =>
    if cursor.atSeparator then .error (.malformed "a document ends inside of quotes")
    else
      let cursor := cursor.skipWhile fun c => c == ' ' || c == '\t'
      match cursor.takeBreak with
      | (none, cursor) => .ok ([], cursor)
      | (some c, cursor) => do
        let (others, cursor) ← quotedBreaks fuel cursor
        return (c :: others, cursor)

/-- The blanks and line ends between two words of a quoted scalar. -/
def quotedBetween (cursor : Cursor) : Except Trouble (List Char × Cursor) := do
  let (blanks, cursor) := cursor.span fun c => c == ' ' || c == '\t'
  if cursor.atEnd then throw (.malformed "the text ends inside of quotes")
  match cursor.takeBreak with
  | (none, cursor) => return (blanks, cursor)
  | (some first, cursor) =>
    let (others, cursor) ← quotedBreaks (cursor.rest.length + 1) cursor
    return (folded first others, cursor)

def shortEscape? (c : Char) : Option Char :=
  [('0', '\x00'), ('a', '\x07'), ('b', '\x08'), ('t', '\t'), ('\t', '\t'), ('n', '\n'),
    ('v', '\x0b'), ('f', '\x0c'), ('r', '\r'), ('e', '\x1b'), (' ', ' '), ('"', '"'),
    ('\\', '\\'), ('/', '/'), ('N', '\x85'), ('_', '\xa0'), ('L', '\u2028'),
    ('P', '\u2029')].lookup c

def escapeWidth? (c : Char) : Option Nat :=
  [('x', 2), ('u', 4), ('U', 8)].lookup c

def numericEscape (width : Nat) (cursor : Cursor) : Except Trouble (Char × Cursor) :=
  let digits := (cursor.rest.take width).filterMap Text.hexValue?
  if digits.length < width then .error (.malformed "expected the digits of a character")
  else
    let code := digits.foldl (fun code digit => code * 16 + digit) 0
    if 0x10FFFF < code then .error (.unusable .badValue)
    else .ok (Json.unitChar code, cursor.skip width)

def readEscape (cursor : Cursor) : Except Trouble (List Char × Cursor) :=
  let mark := cursor.peek
  match shortEscape? mark, escapeWidth? mark with
  | some c, _ => .ok ([c], cursor.advance)
  | none, some width => do
    let (c, cursor) ← numericEscape width cursor.advance
    return ([c], cursor)
  | none, none =>
    match cursor.takeBreak with
    | (some _, cursor) => quotedBreaks (cursor.rest.length + 1) cursor
    | (none, _) => .error (.malformed "unknown escape")

def readQuotedFrom (double : Bool) :
    (fuel : Nat) → (pieces : List (List Char)) → Cursor → Except Trouble (String × Cursor)
  | 0, _, _ => .error (.malformed "the text ends inside of quotes")
  | fuel + 1, pieces, cursor =>
    let c := cursor.peek
    if c == ' ' || c == '\t' || isBreakOrEnd c then do
      let (between, cursor) ← quotedBetween cursor
      readQuotedFrom double fuel (between :: pieces) cursor
    else if double && c == '\\' then do
      let (chars, cursor) ← readEscape cursor.advance
      readQuotedFrom double fuel (chars :: pieces) cursor
    else if !double && c == '\'' && cursor.peek 1 == '\'' then
      readQuotedFrom double fuel (['\''] :: pieces) (cursor.skip 2)
    else if c == (if double then '"' else '\'') then
      .ok (String.ofList pieces.reverse.flatten, cursor.advance)
    else readQuotedFrom double fuel ([c] :: pieces) cursor.advance

def readQuoted (double : Bool) (cursor : Cursor) : Except Trouble (String × Cursor) :=
  readQuotedFrom double (cursor.rest.length + 1) [] cursor.advance

/-- What happens to the line ends at the end of a block. -/
inductive Chomping where
  | clip
  | strip
  | keep
deriving DecidableEq, Repr

def Chomping.ofMark? (c : Char) : Option Chomping :=
  if c == '+' then some .keep else if c == '-' then some .strip else none

def readIncrement (cursor : Cursor) : Except Trouble (Option Nat × Cursor) :=
  let c := cursor.peek
  if c == '0' then .error (.malformed "a block has no indentation")
  else if c.isDigit then .ok (some (c.toNat - 48), cursor.advance)
  else .ok (none, cursor)

def readBlockMarks (cursor : Cursor) : Except Trouble (Chomping × Option Nat × Cursor) := do
  let (chomping, increment, cursor) ← match Chomping.ofMark? cursor.peek with
    | some chomping => do
      let (increment, cursor) ← readIncrement cursor.advance
      pure (chomping, increment, cursor)
    | none => do
      let (increment, cursor) ← readIncrement cursor
      match increment, Chomping.ofMark? cursor.peek with
      | some increment, some chomping => pure (chomping, some increment, cursor.advance)
      | increment, _ => pure (Chomping.clip, increment, cursor)
  if isSpaceOrEnd cursor.peek then return (chomping, increment, cursor)
  else throw (.malformed "expected the marks of a block")

/-- The line ends before the first line of a block, and the deepest column before it. -/
def blockStart : (fuel : Nat) → (deepest : Nat) → Cursor → List Char × Nat × Cursor
  | 0, deepest, cursor => ([], deepest, cursor)
  | fuel + 1, deepest, cursor =>
    if cursor.peek == ' ' then
      let cursor := cursor.advance
      blockStart fuel (max deepest cursor.column) cursor
    else
      match cursor.takeBreak with
      | (none, cursor) => ([], deepest, cursor)
      | (some c, cursor) =>
        let (others, deepest, cursor) := blockStart fuel deepest cursor
        (c :: others, deepest, cursor)

def blockBreaks (indent : Nat) : (fuel : Nat) → Cursor → List Char × Cursor
  | 0, cursor => ([], cursor)
  | fuel + 1, cursor =>
    match (cursor.skipIndent indent).takeBreak with
    | (none, cursor) => ([], cursor)
    | (some c, cursor) =>
      let (others, cursor) := blockBreaks indent fuel cursor
      (c :: others, cursor)

/-- What was read of a block: its pieces from the last one on, and the last line ends. -/
structure BlockScalar where
  pieces : List (List Char) := []
  lastBreak : List Char := []
  breaks : List Char
  cursor : Cursor

def atBlockLine (indent : Nat) (cursor : Cursor) : Bool :=
  cursor.column == indent && !cursor.atEnd

def readBlockLines (fold : Bool) (indent : Nat) : (fuel : Nat) → BlockScalar → BlockScalar
  | 0, block => block
  | fuel + 1, block =>
    if !atBlockLine indent block.cursor then block
    else
      let startsBlank (cursor : Cursor) : Bool := cursor.peek == ' ' || cursor.peek == '\t'
      let (line, behind) := block.cursor.span fun c => !isBreakOrEnd c
      let (ending, behind) := behind.takeBreak
      let (breaks, cursor) := blockBreaks indent (behind.rest.length + 1) behind
      let between :=
        if !atBlockLine indent cursor then []
        else if fold && ending == some '\n' && !startsBlank block.cursor && !startsBlank cursor then
          (if breaks.isEmpty then [' '] else [])
        else ending.toList
      readBlockLines fold indent fuel
        { pieces := between :: line :: block.breaks :: block.pieces
          lastBreak := ending.toList
          breaks
          cursor }

def readBlock (fold : Bool) (indent : Int) (cursor : Cursor) :
    Except Trouble (String × Cursor) := do
  let (chomping, increment, cursor) ← readBlockMarks cursor.advance
  let cursor ← cursor.endLine
  let least := (max (indent + 1) 1).toNat
  let fuel := cursor.rest.length + 1
  let (indent, breaks, cursor) : Nat × List Char × Cursor := match increment with
    | some increment =>
      let indent := least + increment - 1
      let (breaks, cursor) := blockBreaks indent fuel cursor
      (indent, breaks, cursor)
    | none =>
      let (breaks, deepest, cursor) := blockStart fuel 0 cursor
      (max least deepest, breaks, cursor)
  let block := readBlockLines fold indent fuel { breaks, cursor }
  let ending := match chomping with
    | .clip => block.lastBreak
    | .strip => []
    | .keep => block.lastBreak ++ block.breaks
  return (String.ofList (block.pieces.reverse.flatten ++ ending), block.cursor)

end Bindery.Yaml

import Bindery.Yaml.Scalar
import Bindery.Yaml.Token

/-!
# Splitting YAML into tokens

Blocks are found by their columns.  A mapping key is known only by the colon behind
it, so where a key may start is kept until the colon is met.
-/

namespace Bindery.Yaml

structure KeyStart where
  /-- The number of tokens before it. -/
  position : Nat
  /-- Whether a key has to stand here, because the block is a mapping. -/
  required : Bool
  index : Nat
  line : Nat
  column : Nat

structure Lexer where
  cursor : Cursor
  depth : Nat := 0
  indent : Int := -1
  outer : List Int := []
  /-- Whether a key may start here. -/
  allowsKey : Bool := true
  /-- Where keys may have started, by the number of open brackets. -/
  keys : List (Nat × KeyStart) := []
  tokens : List Token := []
  count : Nat := 0

namespace Lexer

def inFlow (lexer : Lexer) : Bool :=
  lexer.depth != 0

def push (token : Token) (lexer : Lexer) : Lexer :=
  { lexer with tokens := token :: lexer.tokens, count := lexer.count + 1 }

def moveTo (cursor : Cursor) (lexer : Lexer) : Lexer :=
  { lexer with cursor }

def keyLimit : Nat := 1024

def keyTrouble : Trouble := .malformed "expected a colon behind a key"

/-- Forgets the places where keys may have started but cannot have. -/
def dropStale (lexer : Lexer) : Except Trouble Lexer :=
  let isStale (entry : Nat × KeyStart) : Bool :=
    entry.2.line != lexer.cursor.line || keyLimit < lexer.cursor.index - entry.2.index
  if lexer.keys.any fun entry => isStale entry && entry.2.required then .error keyTrouble
  else .ok { lexer with keys := lexer.keys.filter fun entry => !isStale entry }

def dropKey (lexer : Lexer) : Except Trouble Lexer :=
  match lexer.keys.lookup lexer.depth with
  | none => .ok lexer
  | some key =>
    if key.required then .error keyTrouble
    else .ok { lexer with keys := lexer.keys.filter (·.1 != lexer.depth) }

def saveKey (lexer : Lexer) : Except Trouble Lexer :=
  if !lexer.allowsKey then .ok lexer
  else do
    let lexer ← lexer.dropKey
    let key : KeyStart :=
      { position := lexer.count
        required := !lexer.inFlow && lexer.indent == (lexer.cursor.column : Int)
        index := lexer.cursor.index
        line := lexer.cursor.line
        column := lexer.cursor.column }
    return { lexer with keys := (lexer.depth, key) :: lexer.keys }

def closeBlocks (column : Int) (lexer : Lexer) : Lexer :=
  if lexer.inFlow then lexer
  else
    let columns := lexer.indent :: lexer.outer
    let closed := columns.takeWhile fun indent => column < indent
    match columns.drop closed.length with
    | indent :: outer =>
      { lexer with
        indent, outer
        tokens := List.replicate closed.length .blockEnd ++ lexer.tokens
        count := lexer.count + closed.length }
    | [] => lexer

/-- Opens a block at a column, unless one is open there. -/
def openBlock (column : Nat) (lexer : Lexer) : Bool × Lexer :=
  if lexer.indent < (column : Int) then
    (true, { lexer with indent := column, outer := lexer.indent :: lexer.outer })
  else (false, lexer)

/-- Opens a block with a token at the cursor, outside of brackets and where a key may start. -/
def openHere (token : Token) (lexer : Lexer) : Except Trouble Lexer :=
  if lexer.inFlow then .ok lexer
  else if !lexer.allowsKey then .error (.malformed "a block is not allowed here")
  else
    let (isNew, lexer) := lexer.openBlock lexer.cursor.column
    .ok (if isNew then lexer.push token else lexer)

def skipToToken : (fuel : Nat) → Lexer → Lexer
  | 0, lexer => lexer
  | fuel + 1, lexer =>
    let cursor := lexer.cursor.skipSpaces.skipComment
    match cursor.takeBreak with
    | (none, cursor) => { lexer with cursor }
    | (some _, cursor) =>
      skipToToken fuel { lexer with cursor, allowsKey := lexer.allowsKey || !lexer.inFlow }

def mark (token : Token) (length : Nat) (lexer : Lexer) : Except Trouble Lexer := do
  let lexer ← (lexer.closeBlocks (-1)).dropKey
  return (({ lexer with allowsKey := false }).push token).moveTo (lexer.cursor.skip length)

def takeDirective (lexer : Lexer) : Except Trouble Lexer := do
  let lexer ← (lexer.closeBlocks (-1)).dropKey
  let (directive, cursor) ← readDirective lexer.cursor
  return ({ lexer with cursor, allowsKey := false }).push (.directive directive)

def openBracket (token : Token) (lexer : Lexer) : Except Trouble Lexer := do
  let lexer ← lexer.saveKey
  return ({ lexer with
    depth := lexer.depth + 1
    allowsKey := true
    cursor := lexer.cursor.advance }).push token

def closeBracket (token : Token) (lexer : Lexer) : Except Trouble Lexer := do
  let lexer ← lexer.dropKey
  if lexer.depth = 0 then throw (.malformed "a bracket is closed that is not open")
  return ({ lexer with
    depth := lexer.depth - 1
    allowsKey := false
    cursor := lexer.cursor.advance }).push token

def takeComma (lexer : Lexer) : Except Trouble Lexer := do
  let lexer ← lexer.dropKey
  return ({ lexer with allowsKey := true, cursor := lexer.cursor.advance }).push .flowEntry

def takeEntry (lexer : Lexer) : Except Trouble Lexer := do
  let lexer ← lexer.openHere .blockSequenceStart
  let lexer ← lexer.dropKey
  return ({ lexer with allowsKey := true, cursor := lexer.cursor.advance }).push .blockEntry

def takeKey (lexer : Lexer) : Except Trouble Lexer := do
  let lexer ← lexer.openHere .blockMappingStart
  let lexer ← lexer.dropKey
  return ({ lexer with allowsKey := !lexer.inFlow, cursor := lexer.cursor.advance }).push .key

/-- Puts the mark of a key where the key started, and before it that of a new mapping. -/
def insertKey (key : KeyStart) (lexer : Lexer) : Lexer :=
  let lexer := { lexer with keys := lexer.keys.filter (·.1 != lexer.depth), allowsKey := false }
  let (isNew, lexer) := if lexer.inFlow then (false, lexer) else lexer.openBlock key.column
  let marks : List Token := if isNew then [.key, .blockMappingStart] else [.key]
  let behind := lexer.count - key.position
  { lexer with
    tokens := lexer.tokens.take behind ++ marks ++ lexer.tokens.drop behind
    count := lexer.count + marks.length }

def takeValue (lexer : Lexer) : Except Trouble Lexer := do
  let lexer ← match lexer.keys.lookup lexer.depth with
    | some key => pure (lexer.insertKey key)
    | none => do
      let lexer ← lexer.openHere .blockMappingStart
      let lexer ← lexer.dropKey
      pure { lexer with allowsKey := !lexer.inFlow }
  return (lexer.push .value).moveTo lexer.cursor.advance

def takeName (token : String → Token) (lexer : Lexer) : Except Trouble Lexer := do
  let lexer ← lexer.saveKey
  let (name, cursor) ← readName lexer.cursor.advance
  return ({ lexer with cursor, allowsKey := false }).push (token name)

def takeTag (lexer : Lexer) : Except Trouble Lexer := do
  let lexer ← lexer.saveKey
  let (token, cursor) ← readTag lexer.cursor
  return ({ lexer with cursor, allowsKey := false }).push token

def takeBlock (fold : Bool) (lexer : Lexer) : Except Trouble Lexer := do
  let lexer ← lexer.dropKey
  let (text, cursor) ← readBlock fold lexer.indent lexer.cursor
  return ({ lexer with cursor, allowsKey := true }).push (.scalar text false)

def takeQuoted (double : Bool) (lexer : Lexer) : Except Trouble Lexer := do
  let lexer ← lexer.saveKey
  let (text, cursor) ← readQuoted double lexer.cursor
  return ({ lexer with cursor, allowsKey := false }).push (.scalar text false)

def takePlain (lexer : Lexer) : Except Trouble Lexer := do
  let lexer ← lexer.saveKey
  let (text, broken, cursor) := readPlain lexer.inFlow lexer.indent lexer.cursor
  return ({ lexer with cursor, allowsKey := broken }).push (.scalar text true)

/-- Whether a plain scalar can start at the cursor. -/
def atPlain (lexer : Lexer) : Bool :=
  let c := lexer.cursor.peek
  let isMark := isBlankOrEnd c || "-?:,[]\x7b\x7d#&*!|>'\"%@\x60".toList.contains c
  !isMark || (!isBlankOrEnd (lexer.cursor.peek 1) &&
    (c == '-' || (!lexer.inFlow && (c == '?' || c == ':'))))

def take (lexer : Lexer) : Except Trouble Lexer :=
  let cursor := lexer.cursor
  let spaced := isBlankOrEnd (cursor.peek 1)
  match cursor.peek with
  | '[' => lexer.openBracket .flowSequenceStart
  | '{' => lexer.openBracket .flowMappingStart
  | ']' => lexer.closeBracket .flowSequenceEnd
  | '}' => lexer.closeBracket .flowMappingEnd
  | ',' => lexer.takeComma
  | '*' => lexer.takeName .alias
  | '&' => lexer.takeName .anchor
  | '!' => lexer.takeTag
  | '\'' => lexer.takeQuoted false
  | '"' => lexer.takeQuoted true
  | c =>
    if c == '%' && cursor.column == 0 then lexer.takeDirective
    else if cursor.column == 0 && cursor.atMarker ['-', '-', '-'] then
      lexer.mark .documentStart 3
    else if cursor.column == 0 && cursor.atMarker ['.', '.', '.'] then lexer.mark .documentEnd 3
    else if c == '-' && spaced then lexer.takeEntry
    else if c == '?' && (lexer.inFlow || spaced) then lexer.takeKey
    else if c == ':' && (lexer.inFlow || spaced) then lexer.takeValue
    else if c == '|' && !lexer.inFlow then lexer.takeBlock false
    else if c == '>' && !lexer.inFlow then lexer.takeBlock true
    else if lexer.atPlain then lexer.takePlain
    else .error (.malformed "a character cannot start a token")

def run : (fuel : Nat) → Lexer → Except Trouble Lexer
  | 0, _ => .error (.malformed "the text does not end")
  | fuel + 1, lexer => do
    let lexer ← (lexer.skipToToken (lexer.cursor.rest.length + 1)).dropStale
    if lexer.cursor.atEnd then (lexer.closeBlocks (-1)).dropKey
    else run fuel (← (lexer.closeBlocks lexer.cursor.column).take)

end Lexer

def textStart (text : String) : Cursor :=
  let cursor := Cursor.start text
  if cursor.peek == '\uFEFF' then cursor.advance else cursor

def tokenize (text : String) : Except Trouble (List Token) := do
  if !text.toList.all Cursor.isAllowed then throw (.malformed "a character is not allowed")
  let lexer ← Lexer.run (text.toList.length + 1) { cursor := textStart text }
  return lexer.tokens.reverse

end Bindery.Yaml

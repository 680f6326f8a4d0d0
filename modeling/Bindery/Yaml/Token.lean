import Bindery.Text.Utf8
import Bindery.Yaml.Cursor

/-!
# YAML tokens

Tokens are the marks of the block and flow styles, the directives, anchors,
aliases and tags, and the scalars.  Here are the tokens and how those with a
name are read.
-/

namespace Bindery.Yaml

inductive Directive where
  | version (major minor : Nat)
  | handle (name uri : String)
  | other
deriving DecidableEq, Repr

inductive Token where
  | directive (directive : Directive)
  | documentStart
  | documentEnd
  | blockSequenceStart
  | blockMappingStart
  | blockEnd
  | flowSequenceStart
  | flowMappingStart
  | flowSequenceEnd
  | flowMappingEnd
  | key
  | value
  | blockEntry
  | flowEntry
  | alias (name : String)
  | anchor (name : String)
  | tag (handle : Option String) (suffix : String)
  | scalar (text : String) (plain : Bool)
deriving DecidableEq, Repr

/-- Whether a character can stand in the name of an anchor, a directive or a handle. -/
def isNameChar (c : Char) : Bool :=
  c.isAlphanum || c == '-' || c == '_'

def isUriChar (c : Char) : Bool :=
  c.isAlphanum || "-;/?:@&=+$,_.!~*'()[]%".toList.contains c

def readName (cursor : Cursor) : Except Trouble (String × Cursor) :=
  let (name, cursor) := cursor.span isNameChar
  let next := cursor.peek
  if name.isEmpty then .error (.malformed "expected a name")
  else if isBlankOrEnd next || "?:,]\x7d%@\x60".toList.contains next then
    .ok (String.ofList name, cursor)
  else .error (.malformed "unexpected character behind a name")

def readEscapes : List Char → Except Trouble (List UInt8 × List Char)
  | '%' :: a :: b :: rest => do
    match Text.hexValue? a, Text.hexValue? b with
    | some high, some low =>
      let (bytes, rest) ← readEscapes rest
      return (UInt8.ofNat (high * 16 + low) :: bytes, rest)
    | _, _ => throw (.malformed "expected two digits of a byte")
  | '%' :: _ => .error (.malformed "expected two digits of a byte")
  | rest => .ok ([], rest)

def readUriChars : (fuel : Nat) → List Char → Except Trouble (List Char × List Char)
  | 0, rest => .ok ([], rest)
  | _ + 1, [] => .ok ([], [])
  | fuel + 1, c :: rest =>
    if c == '%' then do
      let (bytes, behind) ← readEscapes (c :: rest)
      match Text.ofUtf8? bytes with
      | none => throw (.malformed "an address has bytes that are no text")
      | some text =>
        let (chars, behind) ← readUriChars fuel behind
        return (text.toList ++ chars, behind)
    else if isUriChar c then do
      let (chars, behind) ← readUriChars fuel rest
      return (c :: chars, behind)
    else .ok ([], c :: rest)

def readUri (cursor : Cursor) : Except Trouble (String × Cursor) := do
  let (chars, rest) ← readUriChars cursor.rest.length cursor.rest
  let length := cursor.rest.length - rest.length
  if length = 0 then throw (.malformed "expected an address")
  return (String.ofList chars, cursor.skip length)

def readHandle (cursor : Cursor) : Except Trouble (String × Cursor) :=
  if cursor.peek != '!' then .error (.malformed "expected an exclamation mark")
  else if cursor.peek 1 == ' ' then .ok ("!", cursor.advance)
  else
    let (name, behind) := cursor.advance.span isNameChar
    if behind.peek != '!' then .error (.malformed "expected an exclamation mark")
    else .ok ("!" ++ String.ofList name ++ "!", behind.advance)

def hasHandle (cursor : Cursor) : Bool :=
  (cursor.advance.rest.takeWhile fun c => !isSpaceOrEnd c).contains '!'

def readTag (cursor : Cursor) : Except Trouble (Token × Cursor) := do
  let next := cursor.peek 1
  let (handle, suffix, behind) : Option String × String × Cursor ←
    if next == '<' then do
      let (uri, behind) ← readUri (cursor.skip 2)
      if behind.peek != '>' then throw (.malformed "expected the end of an address")
      pure (none, uri, behind.advance)
    else if isBlankOrEnd next then pure (none, "!", cursor.advance)
    else do
      let (handle, behind) ← if hasHandle cursor then readHandle cursor
        else pure ("!", cursor.advance)
      let (uri, behind) ← readUri behind
      pure (some handle, uri, behind)
  if isSpaceOrEnd behind.peek then return (.tag handle suffix, behind)
  else throw (.malformed "expected a space behind a tag")

def readVersionNumber (cursor : Cursor) : Except Trouble (Nat × Cursor) :=
  let (digits, cursor) := cursor.span Char.isDigit
  if digits.isEmpty then .error (.malformed "expected a digit")
  else .ok (Text.decimalValue digits, cursor)

def readVersion (cursor : Cursor) : Except Trouble (Directive × Cursor) := do
  let (major, cursor) ← readVersionNumber cursor.skipSpaces
  if cursor.peek != '.' then throw (.malformed "expected a point")
  let (minor, cursor) ← readVersionNumber cursor.advance
  if isSpaceOrEnd cursor.peek then return (.version major minor, cursor)
  else throw (.malformed "expected a space behind a version")

def readHandleDirective (cursor : Cursor) : Except Trouble (Directive × Cursor) := do
  let (name, cursor) ← readHandle cursor.skipSpaces
  if cursor.peek != ' ' then throw (.malformed "expected a space behind a handle")
  let (uri, cursor) ← readUri cursor.skipSpaces
  if isSpaceOrEnd cursor.peek then return (.handle name uri, cursor)
  else throw (.malformed "expected a space behind an address")

def readDirective (cursor : Cursor) : Except Trouble (Directive × Cursor) := do
  let (name, behind) := cursor.advance.span isNameChar
  if name.isEmpty || !isSpaceOrEnd behind.peek then
    throw (.malformed "expected the name of a directive")
  let (directive, behind) ← match String.ofList name with
    | "YAML" => readVersion behind
    | "TAG" => readHandleDirective behind
    | _ => pure (Directive.other, behind.skipWhile fun c => !isBreakOrEnd c)
  return (directive, ← behind.endLine)

end Bindery.Yaml

import Bindery.Pattern.Basic

/-!
# Escapes in patterns

What a backslash stands for together with what is behind it.  Inside a set there are
no positions and no references.
-/

namespace Bindery.Pattern

inductive SetItem where
  | literal (code : Nat)
  | category
deriving DecidableEq, Repr

def isOctal (c : Char) : Bool := '0' ≤ c && c ≤ '7'

def isHex (c : Char) : Bool := (Text.hexValue? c).isSome

def digitsIn (base : Nat) (digits : List Char) : Nat :=
  digits.foldl (fun value c => value * base + (Text.hexValue? c).getD 0) 0

def control? : Char → Option Nat
  | 'a' => some 7
  | 'b' => some 8
  | 'f' => some 12
  | 'n' => some 10
  | 'r' => some 13
  | 't' => some 9
  | 'v' => some 11
  | '\\' => some 92
  | _ => none

def isCategory (c : Char) : Bool :=
  ['d', 'D', 's', 'S', 'w', 'W'].contains c

def isPosition (c : Char) : Bool :=
  ['A', 'b', 'B', 'Z'].contains c

def hexCode (count : Nat) : Reader Nat := do
  let digits ← takeWhile isHex count
  if digits.length = count then return digitsIn 16 digits else malformed

def longCode : Reader Nat := do
  let code ← hexCode 8
  if Nat.pow 2 31 ≤ code then throw .tooLarge
  else if 0x10FFFF < code then malformed
  else return code

def isCharacterName (name : String) : Bool :=
  name.toList.all fun c => c.isAlphanum || c == ' ' || c == '-'

def namedCharacter : Reader Nat := do
  expect '\x7b'
  let name ← takeUntil '\x7d'
  if isCharacterName name then return 0 else malformed

/-- Reads the rest of an escape that is the same everywhere, if it is one. -/
def codeEscape? (c : Char) : Reader (Option Nat) := do
  match c with
  | 'x' => return some (← hexCode 2)
  | 'u' => return some (← hexCode 4)
  | 'U' => return some (← longCode)
  | 'N' => return some (← namedCharacter)
  | _ => return none

def setEscape (c : Char) : Reader SetItem := do
  if let some code := control? c then return .literal code
  if isCategory c then return .category
  if let some code ← codeEscape? c then return .literal code
  if isOctal c then
    let digits ← takeWhile isOctal 2
    let code := digitsIn 8 (c :: digits)
    if 255 < code then malformed else return .literal code
  else if c.isDigit || c.isAlpha then malformed
  else return .literal c.toNat

def oneCharacter : Part := { kind := .other, width := ⟨1, 1⟩ }

/-- Reads the rest of an escape of digits: an octal code or a reference to a group. -/
def digitEscape (c : Char) : Reader Part := do
  match ← takeWhile Char.isDigit 1 with
  | [second] =>
    if isOctal c && isOctal second then
      match ← takeWhile isOctal 1 with
      | [third] => if 255 < digitsIn 8 [c, second, third] then malformed else return oneCharacter
      | _ => groupReference (digitsIn 10 [c, second])
    else groupReference (digitsIn 10 [c, second])
  | _ => groupReference (digitsIn 10 [c])

def escape (c : Char) : Reader Part := do
  if isPosition c then return { kind := .position, width := ⟨0, 0⟩ }
  if isCategory c then return oneCharacter
  if (control? c).isSome then return oneCharacter
  if (← codeEscape? c).isSome then return oneCharacter
  if c = '0' then
    let _ ← takeWhile isOctal 2
    return oneCharacter
  else if c.isDigit then digitEscape c
  else if c.isAlpha then malformed
  else return oneCharacter

end Bindery.Pattern

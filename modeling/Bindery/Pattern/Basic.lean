import Bindery.Number.Total
import Bindery.Text.Basic

/-!
# Tokens of patterns

A pattern is read as tokens: plain characters, and characters behind a backslash.
-/

namespace Bindery.Pattern

inductive Flaw where
  | malformed
  /-- A repetition count or code point is too large. -/
  | tooLarge
  | conflictingFlags
deriving DecidableEq, Repr

/-- A character of a pattern, on its own or behind a backslash, or a backslash at its end. -/
inductive Token where
  | plain (c : Char)
  | escaped (c : Char)
  | broken
deriving DecidableEq, Repr

def Token.chars : Token → List Char
  | .plain c => [c]
  | .escaped c => ['\\', c]
  | .broken => ['\\']

def tokens : List Char → List Token
  | [] => []
  | ['\\'] => [.broken]
  | '\\' :: c :: rest => .escaped c :: tokens rest
  | c :: rest => .plain c :: tokens rest

/-- The least and the greatest number of characters a part can match. -/
structure Width where
  least : Nat
  most : Nat
deriving DecidableEq, Repr

def Width.bound : Nat := Nat.pow 2 64

def Width.sum (widths : List Width) : Width where
  least := min (total (widths.map (·.least))) bound
  most := min (total (widths.map (·.most))) bound

def Width.choice : List Width → Width
  | [] => ⟨0, 0⟩
  | first :: rest =>
    rest.foldl (fun width other => ⟨min width.least other.least, max width.most other.most⟩) first

/-- The bound of repetition counts, which also stands for no limit. -/
def repeatBound : Nat := 4294967295

def groupBound : Nat := 1073741823

def Width.repeated (width : Width) (least most : Nat) : Width where
  least := width.least * least
  most := if most = repeatBound ∧ width.most ≠ 0 then bound else width.most * most

/-- How a part takes a repetition mark. -/
inductive PartKind where
  | position
  | repetition
  | other
deriving DecidableEq, Repr

structure Part where
  kind : PartKind
  width : Width
deriving DecidableEq, Repr

structure Progress where
  rest : List Token
  /-- The widths of the groups, the whole pattern first; an open group has none yet. -/
  groups : List (Option Width) := [none]
  names : List (String × Nat) := []
  verbose : Bool := false
  asciiOnly : Bool := false
  unicode : Bool := false
  /-- The number of groups where the outermost look-behind began. -/
  behind : Option Nat := none
  /-- Group numbers that have to exist at the end. -/
  conditions : List Nat := []
  /-- Whether some look-behind has no fixed width. -/
  unevenBehind : Bool := false

abbrev Reader := StateT Progress (Except Flaw)

def malformed {α : Type} : Reader α := throw .malformed

/-- Goes on to the rest of a pattern, which must not be a lone backslash. -/
def advance (rest : List Token) : Reader Unit := do
  if rest = [.broken] then malformed
  else modify fun progress => { progress with rest }

def peek : Reader (Option Token) := do
  return (← get).rest.head?

def next : Reader (Option Token) := do
  match (← get).rest with
  | [] => return none
  | token :: rest =>
    advance rest
    return some token

def accept (c : Char) : Reader Bool := do
  if (← peek) = some (.plain c) then
    let _ ← next
    return true
  else return false

def expect (c : Char) : Reader Unit := do
  unless ← accept c do malformed

def takeWhile (member : Char → Bool) : (limit : Nat) → Reader (List Char)
  | 0 => return []
  | limit + 1 => do
    match ← peek with
    | some (.plain c) =>
      if member c then
        let _ ← next
        return c :: (← takeWhile member limit)
      else return []
    | _ => return []

/-- Takes the tokens up to a plain character, which is taken too; the text must not be empty. -/
def takeUntil (stop : Char) : Reader String := do
  let progress ← get
  let text := progress.rest.takeWhile (· ≠ .plain stop)
  if text.isEmpty then malformed
  else
    match progress.rest.drop text.length with
    | [] => malformed
    | _ :: rest =>
      advance rest
      return String.ofList (text.flatMap Token.chars)

def openGroup (name : Option String) : Reader Nat := do
  let progress ← get
  let number := progress.groups.length
  match name with
  | none => set { progress with groups := progress.groups ++ [none] }
  | some name =>
    if (progress.names.lookup name).isSome then malformed
    else
      set { progress with
        groups := progress.groups ++ [none], names := (name, number) :: progress.names }
  return number

def closeGroup (number : Nat) (width : Width) : Reader Unit :=
  modify fun progress => { progress with groups := progress.groups.set number (some width) }

def closedGroup? (number : Nat) : Reader (Option Width) := do
  return ((← get).groups[number]?).join

/-- Checks that a look-behind may refer to a group. -/
def checkBehind (number : Nat) : Reader Unit := do
  match (← get).behind with
  | none => return ()
  | some first =>
    if (← closedGroup? number).isNone || first ≤ number then malformed

def groupReference (number : Nat) : Reader Part := do
  match ← closedGroup? number with
  | none => malformed
  | some width =>
    checkBehind number
    return { kind := .other, width }

end Bindery.Pattern

import Bindery.Pattern.Escape
import Bindery.Text.Digit
import Bindery.Text.Identifier

/-!
# Checking patterns

A pattern is checked by reading it.  Only what decides whether it is well-formed is
kept: the kinds of the parts, and their widths, which a look-behind needs.
-/

namespace Bindery.Pattern

def conditionGroup (name : String) : Reader Nat := do
  if Text.isIdentifier name then
    match (← get).names.lookup name with
    | some number => return number
    | none => malformed
  else
    match Text.readInteger? name with
    | some (.ofNat number) =>
      if number = 0 ∨ groupBound ≤ number then malformed
      else
        modify fun progress => { progress with conditions := number :: progress.conditions }
        return number
    | _ => malformed

def setItem : Token → Reader SetItem
  | .escaped c => setEscape c
  | .plain c => return .literal c.toNat
  | .broken => malformed

def setMembers : (fuel : Nat) → (isEmpty : Bool) → Reader Unit
  | 0, _ => malformed
  | fuel + 1, isEmpty => do
    match ← next with
    | none => malformed
    | some token =>
      if token = .plain ']' ∧ !isEmpty then return ()
      else
        let low ← setItem token
        if ← accept '-' then
          match ← next with
          | none => malformed
          | some (.plain ']') => return ()
          | some token =>
            let high ← setItem token
            match low, high with
            | .literal low, .literal high =>
              if high < low then malformed else setMembers fuel false
            | _, _ => malformed
        else setMembers fuel false

def isFlag (c : Char) : Bool :=
  ['i', 'L', 'm', 's', 'x', 'a', 't', 'u'].contains c

def flagsOn : (fuel : Nat) → (c : Char) → (done : List Char) → Reader (List Char × Char)
  | 0, _, _ => malformed
  | fuel + 1, c, done => do
    if c = 'L' then malformed
    let done := c :: done
    if done.contains 'a' && done.contains 'u' then malformed
    match ← next with
    | some (.plain c) =>
      if c = ')' ∨ c = '-' ∨ c = ':' then return (done, c)
      else if isFlag c then flagsOn fuel c done
      else malformed
    | _ => malformed

def flagsOff : (fuel : Nat) → (done : List Char) → Reader (List Char)
  | 0, _ => malformed
  | fuel + 1, done => do
    match ← next with
    | some (.plain c) =>
      if c = ':' ∧ !done.isEmpty then return done
      else if isFlag c then
        if c = 'a' ∨ c = 'u' ∨ c = 'L' then malformed else flagsOff fuel (c :: done)
      else malformed
    | _ => malformed

/-- Flags of a group, turned on and off; nothing if they hold for the whole pattern. -/
def readFlags (fuel : Nat) (c : Char) : Reader (Option (List Char × List Char)) := do
  let (on, mark) ← if c = '-' then pure ([], '-') else flagsOn fuel c []
  if mark = ')' then
    modify fun progress => { progress with
      verbose := progress.verbose || on.contains 'x'
      asciiOnly := progress.asciiOnly || on.contains 'a'
      unicode := progress.unicode || on.contains 'u' }
    return none
  if on.contains 't' then malformed
  let off ← if mark = '-' then flagsOff fuel [] else pure []
  if off.contains 't' then malformed
  if on.any off.contains then malformed
  return some (on, off)

/-- Reads a repetition in braces; without a closing brace the brace stands for itself. -/
def braces? : Reader (Option (Nat × Nat)) := do
  let start ← get
  if (← peek) = some (.plain '\x7d') then return none
  let low ← takeWhile Char.isDigit start.rest.length
  let high ← if ← accept ',' then takeWhile Char.isDigit start.rest.length else pure low
  if ← accept '\x7d' then
    let least := digitsIn 10 low
    let most := if high.isEmpty then repeatBound else digitsIn 10 high
    if repeatBound ≤ least then throw .tooLarge
    if !high.isEmpty && decide (repeatBound ≤ most) then throw .tooLarge
    if !high.isEmpty && decide (most < least) then malformed
    return some (least, most)
  else
    set start
    return none

/-- Repeats the last part of a sequence, which stands first in `parts`. -/
def repeatLast (parts : List Part) (least most : Nat) : Reader (List Part) := do
  match parts with
  | [] => malformed
  | part :: earlier =>
    if part.kind ≠ .other then malformed
    else
      unless ← accept '?' do
        let _ ← accept '+'
      return { kind := .repetition, width := part.width.repeated least most } :: earlier

def skipComment : Reader Unit := do
  let progress ← get
  match progress.rest.dropWhile (· ≠ .plain ')') with
  | [] => malformed
  | _ :: rest => advance rest

def skipLine : Reader Unit := do
  advance (((← get).rest.dropWhile (· ≠ .plain '\n')).drop 1)

def isLayout (c : Char) : Bool :=
  [' ', '\t', '\n', '\r', '\x0b', '\x0c'].contains c

mutual

/-- Reads alternatives; `top` marks those of the whole pattern. -/
def alternatives : (fuel : Nat) → (verbose top : Bool) → (done : List Width) → Reader Width
  | 0, _, _, _ => malformed
  | fuel + 1, verbose, top, done => do
    let width ← parts fuel verbose (top && done.isEmpty) []
    if ← accept '|' then
      let progress ← get
      alternatives fuel (if top then progress.verbose else verbose) top (width :: done)
    else return Width.choice (width :: done)

/-- Reads the parts of a sequence, the last of which stands first in `done`; `first` marks the
place where flags of the whole pattern may stand. -/
def parts : (fuel : Nat) → (verbose first : Bool) → (done : List Part) → Reader Width
  | 0, _, _, _ => malformed
  | fuel + 1, verbose, first, done => do
    match ← peek with
    | none => return Width.sum (done.map (·.width))
    | some token =>
      if token = .plain '|' ∨ token = .plain ')' then return Width.sum (done.map (·.width))
      let _ ← next
      match token with
      | .broken => malformed
      | .escaped c => parts fuel verbose first ((← escape c) :: done)
      | .plain c =>
        if verbose && isLayout c then parts fuel verbose first done
        else if verbose && c = '#' then
          skipLine
          parts fuel verbose first done
        else
          match c with
          | '[' =>
            let _ ← accept '^'
            setMembers fuel true
            parts fuel verbose first (oneCharacter :: done)
          | '?' => parts fuel verbose first (← repeatLast done 0 1)
          | '*' => parts fuel verbose first (← repeatLast done 0 repeatBound)
          | '+' => parts fuel verbose first (← repeatLast done 1 repeatBound)
          | '\x7b' =>
            match ← braces? with
            | some (least, most) => parts fuel verbose first (← repeatLast done least most)
            | none => parts fuel verbose first (oneCharacter :: done)
          | '(' =>
            if ← accept '?' then extended fuel verbose first done
            else
              let part ← group fuel verbose (some none)
              parts fuel verbose first (part :: done)
          | '^' => parts fuel verbose first ({ kind := .position, width := ⟨0, 0⟩ } :: done)
          | '$' => parts fuel verbose first ({ kind := .position, width := ⟨0, 0⟩ } :: done)
          | _ => parts fuel verbose first (oneCharacter :: done)

/-- Reads what stands in parentheses behind a question mark, and the parts behind it. -/
def extended : (fuel : Nat) → (verbose first : Bool) → (done : List Part) → Reader Width
  | 0, _, _, _ => malformed
  | fuel + 1, verbose, first, done => do
    match ← next with
    | some (.plain 'P') =>
      if ← accept '<' then
        let name ← takeUntil '>'
        unless Text.isIdentifier name do malformed
        let part ← group fuel verbose (some (some name))
        parts fuel verbose first (part :: done)
      else if ← accept '=' then
        let name ← takeUntil ')'
        unless Text.isIdentifier name do malformed
        match (← get).names.lookup name with
        | none => malformed
        | some number => parts fuel verbose first ((← groupReference number) :: done)
      else malformed
    | some (.plain ':') => parts fuel verbose first ((← group fuel verbose none) :: done)
    | some (.plain '>') => parts fuel verbose first ((← group fuel verbose none) :: done)
    | some (.plain '#') =>
      skipComment
      parts fuel verbose first done
    | some (.plain '=') => parts fuel verbose first ((← ahead fuel verbose) :: done)
    | some (.plain '!') => parts fuel verbose first ((← ahead fuel verbose) :: done)
    | some (.plain '<') =>
      unless ← accept '=' do expect '!'
      parts fuel verbose first ((← behind fuel verbose) :: done)
    | some (.plain '(') =>
      let number ← conditionGroup (← takeUntil ')')
      checkBehind number
      let yes ← parts fuel verbose false []
      let width ← if ← accept '|' then do
          let no ← parts fuel verbose false []
          pure (Width.choice [yes, no])
        else pure ⟨0, yes.most⟩
      expect ')'
      parts fuel verbose first ({ kind := .other, width } :: done)
    | some (.plain c) =>
      if isFlag c || c = '-' then
        match ← readFlags fuel c with
        | none =>
          let progress ← get
          if first && done.isEmpty then parts fuel progress.verbose first done else malformed
        | some (on, off) =>
          let inner := (verbose || on.contains 'x') && !off.contains 'x'
          parts fuel verbose first ((← group fuel inner none) :: done)
      else malformed
    | _ => malformed

/-- Reads a group up to its closing parenthesis; `capture` holds the name of a numbered group. -/
def group : (fuel : Nat) → (verbose : Bool) → (capture : Option (Option String)) → Reader Part
  | 0, _, _ => malformed
  | fuel + 1, verbose, capture => do
    match capture with
    | none =>
      let width ← alternatives fuel verbose false []
      expect ')'
      return { kind := .other, width }
    | some name =>
      let number ← openGroup name
      let width ← alternatives fuel verbose false []
      expect ')'
      closeGroup number width
      return { kind := .other, width }

def ahead : (fuel : Nat) → (verbose : Bool) → Reader Part
  | 0, _ => malformed
  | fuel + 1, verbose => do
    let _ ← alternatives fuel verbose false []
    expect ')'
    return { kind := .other, width := ⟨0, 0⟩ }

def behind : (fuel : Nat) → (verbose : Bool) → Reader Part
  | 0, _ => malformed
  | fuel + 1, verbose => do
    let outer := (← get).behind
    modify fun progress =>
      { progress with behind := progress.behind.or (some progress.groups.length) }
    let width ← alternatives fuel verbose false []
    expect ')'
    modify fun progress => { progress with
      behind := outer
      unevenBehind := progress.unevenBehind || width.least != width.most ||
        decide (repeatBound < width.least) }
    return { kind := .other, width := ⟨0, 0⟩ }

end

def check (pattern : String) : Except Flaw Unit := do
  let all := tokens pattern.toList
  let fuel := 4 * all.length + 4
  let (_, progress) ← (alternatives fuel false true []).run { rest := all }
  if progress.asciiOnly && progress.unicode then throw .conflictingFlags
  if !progress.rest.isEmpty then throw .malformed
  if progress.conditions.any fun number => progress.groups.length ≤ number then throw .malformed
  if progress.unevenBehind then throw .malformed

end Bindery.Pattern

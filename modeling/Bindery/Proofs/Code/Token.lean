import Bindery.Code.Mention
import Bindery.Proofs.Naming.Modules

/-!
# Tokens of a line of code

A line of code is read character by character into tokens: names, names of
arguments, numbers, quoted literals and single marks.  A text that holds a line
break, a literal that is left open, or anything else that does not stand in
expressions has no tokens.

Reading a line loses no name: every name token is among the identifiers that are
found in the text, which also counts those inside literals.
-/

namespace Bindery.Code

open List

/-- A token of a line of code; the sign behind the name of an argument belongs to it. -/
inductive Token where
  | name (word : String)
  | argument (word : String)
  | number
  | quoted
  | mark (sign : Char)
deriving DecidableEq, Repr

/-! ## Reading tokens -/

inductive Digits where
  | whole
  | fraction
  | exponentMark
  | exponentSign
  | exponent
deriving DecidableEq, Repr

def Digits.next? (c : Char) : Digits → Option Digits
  | .whole =>
    if c.isDigit then some .whole
    else if c = '.' then some .fraction
    else if c = 'e' then some .exponentMark
    else none
  | .fraction =>
    if c.isDigit then some .fraction else if c = 'e' then some .exponentMark else none
  | .exponentMark =>
    if c.isDigit then some .exponent
    else if c = '+' ∨ c = '-' then some .exponentSign
    else none
  | .exponentSign => if c.isDigit then some .exponent else none
  | .exponent => if c.isDigit then some .exponent else none

def Digits.isComplete : Digits → Bool
  | .whole => true
  | .fraction => true
  | .exponentMark => false
  | .exponentSign => false
  | .exponent => true

/-- What is being read: nothing, a word (last character first), a number, a literal up to its
quote, or what stands directly behind a literal. -/
inductive Mode where
  | between
  | word (read : List Char)
  | number (digits : Digits)
  | inside (quote : Char) (escaped : Bool)
  | behind

def wordOf (read : List Char) : String :=
  String.ofList read.reverse

def isQuote (c : Char) : Bool :=
  c == '\'' || c == '"'

variable {c : Char}

theorem eq_of_isQuote (quote : isQuote c = true) : c = '\'' ∨ c = '"' := by
  simpa [isQuote] using quote

def marks : List Char :=
  ['(', ')', '[', ']', '\x7b', '\x7d', ':', ',', '.', '-']

def opening (c : Char) : Option (Mode × List Token) :=
  if isNameStart c then some (.word [c], [])
  else if c.isDigit then some (.number .whole, [])
  else if isQuote c then some (.inside c false, [])
  else if c = ' ' then some (.between, [])
  else if marks.contains c then some (.between, [.mark c])
  else none

/-- Reads a character: what is read next, and the tokens that are finished.  Two literals never
touch, so three quotes in a row are refused, and bytes are the only literals with a letter in
front. -/
def Mode.step : Mode → Char → Option (Mode × List Token)
  | .between, c => opening c
  | .word read, c =>
    if isNameChar c then some (.word (c :: read), [])
    else if c = '=' then some (.between, [.argument (wordOf read)])
    else if isQuote c then if read = ['b'] then some (.inside c false, []) else none
    else (opening c).map fun next => (next.1, .name (wordOf read) :: next.2)
  | .number digits, c =>
    match digits.next? c with
    | some digits => some (.number digits, [])
    | none =>
      if digits.isComplete && !isNameChar c && !isQuote c && c != '.' then
        (opening c).map fun next => (next.1, .number :: next.2)
      else none
  | .inside quote escaped, c =>
    if c = '\n' ∨ c = '\r' then none
    else if escaped then some (.inside quote false, [])
    else if c = '\\' then some (.inside quote true, [])
    else if c = quote then some (.behind, [.quoted])
    else some (.inside quote false, [])
  | .behind, c => if isQuote c || isNameChar c then none else opening c

def Mode.finish : Mode → Option (List Token)
  | .between => some []
  | .word read => some [.name (wordOf read)]
  | .number digits => if digits.isComplete then some [.number] else none
  | .inside _ _ => none
  | .behind => some []

def lexFrom (mode : Mode) : List Char → Option (List Token)
  | [] => mode.finish
  | c :: rest =>
    (mode.step c).bind fun next => (lexFrom next.1 rest).map fun tokens => next.2 ++ tokens

def lex (code : String) : Option (List Token) :=
  lexFrom .between code.toList

variable {mode : Mode} {tokens : List Token}

theorem lexFrom_cons {rest : List Char} :
    lexFrom mode (c :: rest) = some tokens ↔
      ∃ next made later, mode.step c = some (next, made) ∧ lexFrom next rest = some later ∧
        made ++ later = tokens := by
  simp only [lexFrom, Option.bind_eq_some_iff, Option.map_eq_some_iff, Prod.exists]
  constructor
  · rintro ⟨next, made, stepped, later, read, same⟩
    exact ⟨next, made, later, stepped, read, same⟩
  · rintro ⟨next, made, later, stepped, read, same⟩
    exact ⟨next, made, stepped, later, read, same⟩

/-! ### Lines -/

def isLineBreak (c : Char) : Bool :=
  c == '\n' || c == '\r'

theorem opening_lineBreak (breaks : isLineBreak c = true) : opening c = none := by
  rw [isLineBreak, Bool.or_eq_true, beq_iff_eq, beq_iff_eq] at breaks
  rcases breaks with rfl | rfl
  · decide
  · decide

theorem step_lineBreak (breaks : isLineBreak c = true) (mode : Mode) : mode.step c = none := by
  have refused := opening_lineBreak breaks
  have both := breaks
  rw [isLineBreak, Bool.or_eq_true, beq_iff_eq, beq_iff_eq] at both
  cases mode with
  | between => exact refused
  | word read =>
    rcases both with rfl | rfl
    · simp [Mode.step, isNameChar, isQuote, refused]
    · simp [Mode.step, isNameChar, isQuote, refused]
  | number digits =>
    rcases both with rfl | rfl
    · cases digits <;> simp [Mode.step, Digits.next?, refused]
    · cases digits <;> simp [Mode.step, Digits.next?, refused]
  | inside quote escaped => simp [Mode.step, both]
  | behind => simp [Mode.step, refused]

variable {chars current : List Char} {made : List Token} {word : String}

theorem lexFrom_line (read : lexFrom mode chars = some tokens) :
    ∀ c ∈ chars, isLineBreak c = false := by
  induction chars generalizing mode tokens with
  | nil => simp
  | cons c rest ih =>
    obtain ⟨next, made, later, stepped, after, _⟩ := lexFrom_cons.mp read
    refine forall_mem_cons.mpr ⟨?_, ih after⟩
    rw [Bool.eq_false_iff]
    intro breaks
    rw [step_lineBreak breaks] at stepped
    cases stepped

/-! ### Names -/

/-- What has been found of an identifier agrees with what is being read: the word itself, anything
inside a literal or a number, and nothing elsewhere. -/
def Agrees (current : List Char) : Mode → Prop
  | .between => current = []
  | .word read => current = read ∧ read ≠ []
  | .number _ => True
  | .inside quote _ => isQuote quote = true
  | .behind => current = []

theorem not_isNameStart (stops : isNameChar c = false) : isNameStart c = false := by
  rw [isNameChar, Char.isAlphanum, Bool.or_eq_false_iff, Bool.or_eq_false_iff] at stops
  rw [isNameStart, stops.1.1, stops.2]
  rfl

/-- A character that no identifier holds ends the one that is being found. -/
theorem identifiersFrom_stop (stops : isNameChar c = false) (current rest : List Char) :
    identifiersFrom [] (c :: rest) ⊆ identifiersFrom current (c :: rest) := by
  cases current with
  | nil => exact Subset.refl _
  | cons last earlier => simp [identifiersFrom, stops, not_isNameStart stops]

theorem identifiersFrom_cons (current : List Char) (c : Char) (rest : List Char) :
    ∃ found, identifiersFrom found rest ⊆ identifiersFrom current (c :: rest) := by
  rw [identifiersFrom]
  split
  · split
    · exact ⟨[c], Subset.refl _⟩
    · exact ⟨[], Subset.refl _⟩
  · split
    · exact ⟨c :: current, Subset.refl _⟩
    · exact ⟨[], subset_cons_self _ _⟩

theorem not_isNameChar_of_isQuote (quote : isQuote c = true) : isNameChar c = false := by
  rcases eq_of_isQuote quote with rfl | rfl
  · decide
  · decide

/-- Behind what a character begins, the identifiers are found from where they stand. -/
theorem opening_agrees {next : Mode} (opened : opening c = some (next, made)) (rest : List Char) :
    (∀ word, .name word ∉ made) ∧ ∃ current, Agrees current next ∧
      identifiersFrom current rest ⊆ identifiersFrom [] (c :: rest) := by
  unfold opening at opened
  split at opened
  next start =>
    cases opened
    exact ⟨by simp, [c], ⟨rfl, by simp⟩, by simp [identifiersFrom, start]⟩
  next noStart =>
    have kept : identifiersFrom [] rest ⊆ identifiersFrom [] (c :: rest) := by
      simp [identifiersFrom, noStart]
    split at opened
    · cases opened
      exact ⟨by simp, [], trivial, kept⟩
    · split at opened
      next quote =>
        cases opened
        exact ⟨by simp, [], quote, kept⟩
      · split at opened
        · cases opened
          exact ⟨by simp, [], rfl, kept⟩
        · split at opened
          · cases opened
            exact ⟨by simp, [], rfl, kept⟩
          · cases opened

theorem step_agrees {next : Mode} (stepped : mode.step c = some (next, made))
    (agrees : Agrees current mode) (rest : List Char) :
    (∀ word, .name word ∈ made → word ∈ identifiersFrom current (c :: rest)) ∧
      ∃ found, Agrees found next ∧
        identifiersFrom found rest ⊆ identifiersFrom current (c :: rest) := by
  cases mode with
  | between =>
    obtain rfl : current = [] := agrees
    obtain ⟨none, later⟩ := opening_agrees stepped rest
    exact ⟨fun word member => absurd member (none word), later⟩
  | word read =>
    obtain ⟨rfl, nonempty⟩ : current = read ∧ read ≠ [] := agrees
    have reading : current.isEmpty = false := by simpa using nonempty
    simp only [Mode.step] at stepped
    split at stepped
    next continues =>
      cases stepped
      refine ⟨by simp, c :: current, ⟨rfl, by simp⟩, ?_⟩
      simp [identifiersFrom, reading, continues]
    next ends =>
      rw [Bool.not_eq_true] at ends
      have finished : identifiersFrom current (c :: rest) =
          wordOf current :: identifiersFrom [] rest := by
        simp [identifiersFrom, reading, ends, wordOf]
      have onward : identifiersFrom [] rest ⊆ identifiersFrom current (c :: rest) := by
        simp [finished]
      split at stepped
      · cases stepped
        exact ⟨by simp, [], rfl, onward⟩
      · split at stepped
        next quote =>
          split at stepped
          · cases stepped
            exact ⟨by simp, [], quote, onward⟩
          · cases stepped
        · obtain ⟨⟨_, opened⟩, same, made⟩ := Option.map_eq_some_iff.mp stepped
          cases made
          obtain ⟨none, found, agrees, inside⟩ := opening_agrees same rest
          refine ⟨fun word member => ?_, found, agrees,
            Subset.trans inside (identifiersFrom_stop ends current rest)⟩
          rcases mem_cons.mp member with named | later
          · cases named
            simp [finished]
          · exact absurd later (none word)
  | number digits =>
    simp only [Mode.step] at stepped
    split at stepped
    · cases stepped
      obtain ⟨found, onward⟩ := identifiersFrom_cons current c rest
      exact ⟨by simp, found, trivial, onward⟩
    · split at stepped
      next ends =>
        simp only [Bool.and_eq_true, Bool.not_eq_true'] at ends
        obtain ⟨⟨_, opened⟩, same, made⟩ := Option.map_eq_some_iff.mp stepped
        cases made
        obtain ⟨none, found, agrees, inside⟩ := opening_agrees same rest
        exact ⟨fun word member => absurd member (by simpa using none word), found, agrees,
          Subset.trans inside (identifiersFrom_stop ends.1.1.2 current rest)⟩
      next => cases stepped
  | inside quote escaped =>
    have isQuote : isQuote quote = true := agrees
    obtain ⟨found, onward⟩ := identifiersFrom_cons current c rest
    simp only [Mode.step] at stepped
    split at stepped
    · cases stepped
    · split at stepped
      · cases stepped
        exact ⟨by simp, found, isQuote, onward⟩
      · split at stepped
        · cases stepped
          exact ⟨by simp, found, isQuote, onward⟩
        · split at stepped
          next closes =>
            cases stepped
            subst closes
            have ends := not_isNameChar_of_isQuote isQuote
            refine ⟨by simp, [], rfl, Subset.trans ?_ (identifiersFrom_stop ends _ _)⟩
            simp [identifiersFrom, not_isNameStart ends]
          next =>
            cases stepped
            exact ⟨by simp, found, isQuote, onward⟩
  | behind =>
    obtain rfl : current = [] := agrees
    simp only [Mode.step] at stepped
    split at stepped
    · cases stepped
    · obtain ⟨none, later⟩ := opening_agrees stepped rest
      exact ⟨fun word member => absurd member (none word), later⟩

theorem lexFrom_names (read : lexFrom mode chars = some tokens) (agrees : Agrees current mode)
    (named : .name word ∈ tokens) : word ∈ identifiersFrom current chars := by
  induction chars generalizing mode current tokens with
  | nil =>
    cases mode with
    | word read' =>
      obtain ⟨rfl, nonempty⟩ : current = read' ∧ read' ≠ [] := agrees
      cases read
      obtain rfl : word = wordOf current := by simpa using named
      simp [identifiersFrom, nonempty, wordOf]
    | between => cases read; cases named
    | number digits =>
      simp only [lexFrom, Mode.finish] at read
      split at read
      · cases read
        simp at named
      · cases read
    | inside quote escaped => cases read
    | behind => cases read; cases named
  | cons c rest ih =>
    obtain ⟨next, made, later, stepped, after, rfl⟩ := lexFrom_cons.mp read
    obtain ⟨here, found, agrees, onward⟩ := step_agrees stepped agrees rest
    rcases mem_append.mp named with now | then'
    · exact here word now
    · exact onward (ih after agrees then')

theorem mem_identifiers_of_lex {code : String} (read : lex code = some tokens)
    (named : .name word ∈ tokens) : word ∈ identifiers code :=
  lexFrom_names read rfl named

end Bindery.Code

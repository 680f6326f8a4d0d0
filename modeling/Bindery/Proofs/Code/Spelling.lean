import Bindery.Proofs.Code.Grammar
import Bindery.Text.Basic

/-!
# Texts of expressions

A text spells tokens if it is read as these tokens wherever it stands in front of
a mark that may follow an expression.  A text is written in a form of the grammar
if it spells tokens of that form.
-/

namespace Bindery.Code

open Text List Mode

/-! ## Spelled texts -/

/-- Whether a character may follow an expression. -/
def isStop (c : Char) : Bool :=
  ['(', ')', '[', ']', '\x7d', ':', ','].contains c

/-- Nothing follows, or a character that may follow an expression. -/
def Stops (rest : List Char) : Prop :=
  ∀ c ∈ rest.head?, isStop c = true

theorem stops_cons {c : Char} (stop : isStop c = true) (rest : List Char) : Stops (c :: rest) := by
  intro head member
  obtain rfl : c = head := by simpa using member
  exact stop

theorem Stops.append {front : List Char} (stops : Stops front) (nonempty : front ≠ [])
    (rest : List Char) : Stops (front ++ rest) := by
  intro c member
  rw [head?_append_of_ne_nil _ nonempty] at member
  exact stops c member

/-- A text is read as some tokens in front of anything. -/
def Leads (text : String) (tokens : List Token) : Prop :=
  ∀ rest, lexFrom .between (text.toList ++ rest) = (lexFrom .between rest).map (tokens ++ ·)

/-- A text is read as some tokens in front of what may follow an expression. -/
def Spells (text : String) (tokens : List Token) : Prop :=
  ∀ rest, Stops rest →
    lexFrom .between (text.toList ++ rest) = (lexFrom .between rest).map (tokens ++ ·)

variable {text : String} {sign : Char}

theorem Spells.lex {tokens : List Token} (spells : Spells text tokens) :
    lex text = some tokens := by
  have whole := spells [] (by simp [Stops])
  simpa [lexFrom, finish, Code.lex] using whole

section Composition

variable {first second : String} {left right : List Token}

theorem Leads.append (leads : Leads first left) (more : Leads second right) :
    Leads (first ++ second) (left ++ right) := by
  intro rest
  rw [String.toList_append, List.append_assoc, leads, more, Option.map_map]
  simp [Function.comp_def]

theorem Leads.spells_append (leads : Leads first left) (spells : Spells second right) :
    Spells (first ++ second) (left ++ right) := by
  intro rest stops
  rw [String.toList_append, List.append_assoc, leads, spells rest stops, Option.map_map]
  simp [Function.comp_def]

theorem Leads.spells (leads : Leads first left) : Spells first left :=
  fun rest _ => leads rest

/-- A spelled text is read as its tokens in front of a text that begins with a stop. -/
theorem Spells.leads_append (spells : Spells first left) (leads : Leads second right)
    (nonempty : second.toList ≠ []) (stops : Stops second.toList) :
    Leads (first ++ second) (left ++ right) := by
  intro rest
  have onward := stops.append nonempty rest
  rw [String.toList_append, List.append_assoc, spells _ onward, leads, Option.map_map]
  simp [Function.comp_def]

end Composition

/-! ### Ends of tokens -/

/-- What is read may end here with some tokens: at the end of the line and at every stop. -/
structure Ends (mode : Mode) (made : List Token) : Prop where
  finish : mode.finish = some made
  step : ∀ c, isStop c = true → mode.step c = some (.between, made ++ [.mark c])

theorem forall_isStop {holds : Char → Prop} (round : holds '(' ∧ holds ')')
    (square : holds '[' ∧ holds ']') (others : holds '\x7d' ∧ holds ':' ∧ holds ',') :
    ∀ c, isStop c = true → holds c := by
  intro c stop
  simp only [isStop, contains_eq_mem, mem_cons, not_mem_nil, or_false,
    decide_eq_true_eq] at stop
  rcases stop with rfl | rfl | rfl | rfl | rfl | rfl | rfl
  · exact round.1
  · exact round.2
  · exact square.1
  · exact square.2
  · exact others.1
  · exact others.2.1
  · exact others.2.2

theorem ends_between : Ends .between [] where
  finish := rfl
  step := forall_isStop ⟨rfl, rfl⟩ ⟨rfl, rfl⟩ ⟨rfl, rfl, rfl⟩

theorem ends_word (read : List Char) : Ends (.word read) [.name (wordOf read)] where
  finish := rfl
  step := forall_isStop ⟨rfl, rfl⟩ ⟨rfl, rfl⟩ ⟨rfl, rfl, rfl⟩

theorem ends_number {digits : Digits} (complete : digits.isComplete = true) :
    Ends (.number digits) [.number] where
  finish := by simp [finish, complete]
  step := by
    cases digits with
    | whole => exact forall_isStop ⟨rfl, rfl⟩ ⟨rfl, rfl⟩ ⟨rfl, rfl, rfl⟩
    | fraction => exact forall_isStop ⟨rfl, rfl⟩ ⟨rfl, rfl⟩ ⟨rfl, rfl, rfl⟩
    | exponentMark => cases complete
    | exponentSign => cases complete
    | exponent => exact forall_isStop ⟨rfl, rfl⟩ ⟨rfl, rfl⟩ ⟨rfl, rfl, rfl⟩

theorem ends_behind : Ends .behind [] where
  finish := rfl
  step := forall_isStop ⟨rfl, rfl⟩ ⟨rfl, rfl⟩ ⟨rfl, rfl, rfl⟩

theorem Ends.lexFrom {mode : Mode} {made : List Token} (ends : Ends mode made) {rest : List Char}
    (stops : Stops rest) : lexFrom mode rest = (lexFrom .between rest).map (made ++ ·) := by
  cases rest with
  | nil =>
    rw [Code.lexFrom, ends.finish, Code.lexFrom, ends_between.finish]
    simp
  | cons c rest =>
    have stop := stops c rfl
    rw [Code.lexFrom, ends.step c stop, Code.lexFrom, ends_between.step c stop]
    simp [Function.comp_def]

/-! ### Words and marks -/

theorem lexFrom_word {chars : List Char} (inWord : ∀ c ∈ chars, isNameChar c = true)
    (read rest : List Char) :
    lexFrom (.word read) (chars ++ rest) = lexFrom (.word (chars.reverse ++ read)) rest := by
  induction chars generalizing read with
  | nil => rfl
  | cons c chars ih =>
    obtain ⟨first, others⟩ := forall_mem_cons.mp inWord
    simp [lexFrom, step, first, ih others]

variable {word : String}

section

variable (identifier : isIdentifier word = true)

include identifier

theorem lexFrom_identifier (rest : List Char) : ∃ read, wordOf read = word ∧
      lexFrom .between (word.toList ++ rest) = lexFrom (.word read) rest := by
  unfold isIdentifier at identifier
  split at identifier
  next => cases identifier
  next first others characters =>
    rw [Bool.and_eq_true, all_eq_true] at identifier
    refine ⟨others.reverse ++ [first], ?_, ?_⟩
    · simp [wordOf, ← characters]
    · rw [characters, cons_append, lexFrom]
      simp [step, opening, identifier.1, lexFrom_word identifier.2]

theorem spells_name : Spells word [.name word] := by
  intro rest stops
  obtain ⟨read, rfl, same⟩ := lexFrom_identifier identifier rest
  rw [same]
  exact (ends_word read).lexFrom stops

theorem leads_argument : Leads (word ++ "=") [.argument word] := by
  intro rest
  obtain ⟨read, rfl, same⟩ := lexFrom_identifier identifier ('=' :: rest)
  rw [String.toList_append, List.append_assoc]
  refine same.trans ?_
  simp [lexFrom, Mode.step, isNameChar]

theorem leads_member : Leads (word ++ ".") [.name word, .mark '.'] := by
  intro rest
  obtain ⟨read, rfl, same⟩ := lexFrom_identifier identifier ('.' :: rest)
  rw [String.toList_append, List.append_assoc]
  refine same.trans ?_
  have plain : opening '.' = some (.between, [.mark '.']) := rfl
  simp [lexFrom, Mode.step, isNameChar, isQuote, plain]

end

theorem leads_mark (characters : text.toList = [sign])
    (plain : opening sign = some (.between, [.mark sign])) : Leads text [.mark sign] := by
  intro rest
  simp [characters, lexFrom, step, plain]

theorem leads_stop (characters : text.toList = [sign]) (stop : isStop sign = true) :
    Leads text [.mark sign] := by
  intro rest
  simp [characters, lexFrom, ends_between.step sign stop]

theorem leads_spaced (characters : text.toList = [sign, ' '])
    (plain : opening sign = some (.between, [.mark sign])) : Leads text [.mark sign] := by
  intro rest
  have space : opening ' ' = some (.between, []) := rfl
  simp [characters, lexFrom, step, plain, space, Function.comp_def]

/-! ## Written forms -/

/-- A text is the text of a form of the grammar. -/
def Written (usable : String → Prop) (form : Form) (text : String) : Prop :=
  ∃ tokens, Spells text tokens ∧ Derives usable form tokens

section Productions

variable {usable : String → Prop} {form : Form}

theorem Written.mono {more : String → Prop} (written : Written usable form text)
    (wider : ∀ word, usable word → more word) : Written more form text := by
  obtain ⟨tokens, spells, derives⟩ := written
  exact ⟨tokens, spells, derives.mono wider⟩

theorem written_name {word : String} (identifier : isIdentifier word = true)
    (allowed : usable word) : Written usable .expression word :=
  ⟨_, spells_name identifier, .name allowed⟩

theorem written_negative (operand : Written usable .expression text) :
    Written usable .expression ("-" ++ text) := by
  obtain ⟨tokens, spells, derives⟩ := operand
  have minus : Leads "-" [.mark '-'] := leads_mark rfl rfl
  exact ⟨_, minus.spells_append spells, .negative derives⟩

end Productions

end Bindery.Code

import Bindery.Proofs.Code.Token

/-!
# The grammar of expressions

Tokens are an expression if a small grammar derives them: names, numbers and
literals, attributes, calls with arguments by place before those by name,
subscripts, lists and maps.  The grammar is given for a class of usable names,
and everything it derives is built of such names and has balanced brackets.
-/

namespace Bindery.Code

open List

/-! ## Brackets -/

/-- The bracket that closes what a mark opens. -/
def closing? (sign : Char) : Option Char :=
  [('(', ')'), ('[', ']'), ('\x7b', '\x7d')].lookup sign

/-- Whether tokens close the brackets that are open, last opened first, and all that they open
themselves. -/
def closes : List Char → List Token → Bool
  | opened, [] => opened.isEmpty
  | opened, .mark sign :: rest =>
    match closing? sign with
    | some close => closes (close :: opened) rest
    | none =>
      if [')', ']', '\x7d'].contains sign then
        match opened with
        | [] => false
        | last :: earlier => last == sign && closes earlier rest
      else closes opened rest
  | opened, _ :: rest => closes opened rest

def isBalanced (tokens : List Token) : Bool :=
  closes [] tokens

/-- Tokens close the brackets that they open, whatever stands around them. -/
def Nests (tokens : List Token) : Prop :=
  ∀ opened rest, closes opened (tokens ++ rest) = closes opened rest

theorem Nests.isBalanced {tokens : List Token} (nests : Nests tokens) :
    isBalanced tokens = true := by
  have whole := nests [] []
  rwa [append_nil] at whole

theorem Nests.nil : Nests [] :=
  fun _ _ => rfl

theorem Nests.append {first second : List Token} (left : Nests first) (right : Nests second) :
    Nests (first ++ second) := by
  intro opened rest
  rw [append_assoc, left, right]

theorem nests_name (word : String) : Nests [.name word] :=
  fun _ _ => rfl

theorem nests_mark {sign : Char} (plain : closing? sign = none)
    (noClose : [')', ']', '\x7d'].contains sign = false) : Nests [.mark sign] := by
  intro opened rest
  simp only [singleton_append, closes, plain, noClose, Bool.false_eq_true, if_false]

theorem nests_bracketed {sign close : Char} {tokens : List Token}
    (pair : closing? sign = some close)
    (closed : closing? close = none ∧ [')', ']', '\x7d'].contains close = true)
    (nests : Nests tokens) : Nests (.mark sign :: (tokens ++ [.mark close])) := by
  intro opened rest
  simp only [cons_append, append_assoc, nil_append, closes, pair]
  rw [nests]
  simp only [closes, closed.1, closed.2, if_true, BEq.rfl, Bool.true_and]

/-! ## Expressions -/

/-- What tokens stand for: an expression, an argument with its name, or an entry of a map. -/
inductive Form where
  | expression
  | keyword
  | entry

/-- Tokens with a comma between each two neighbours. -/
def separated (parts : List (List Token)) : List Token :=
  intercalate [.mark ','] parts

def enclosed (sign close : Char) (parts : List (List Token)) : List Token :=
  .mark sign :: (separated parts ++ [.mark close])

/-- The grammar of expressions whose names are all usable. -/
inductive Derives (usable : String → Prop) : Form → List Token → Prop
  | name {word : String} (allowed : usable word) : Derives usable .expression [.name word]
  | number : Derives usable .expression [.number]
  | quoted : Derives usable .expression [.quoted]
  | negative {tokens : List Token} (operand : Derives usable .expression tokens) :
      Derives usable .expression (.mark '-' :: tokens)
  | member {object : List Token} {word : String} (inner : Derives usable .expression object)
      (allowed : usable word) : Derives usable .expression (object ++ [.mark '.', .name word])
  | call {function : List Token} {positional keywords : List (List Token)}
      (called : Derives usable .expression function)
      (values : ∀ part ∈ positional, Derives usable .expression part)
      (named : ∀ part ∈ keywords, Derives usable .keyword part) :
      Derives usable .expression (function ++ enclosed '(' ')' (positional ++ keywords))
  | index {object : List Token} {parts : List (List Token)}
      (indexed : Derives usable .expression object) (nonempty : parts ≠ [])
      (values : ∀ part ∈ parts, Derives usable .expression part) :
      Derives usable .expression (object ++ enclosed '[' ']' parts)
  | list {parts : List (List Token)} (values : ∀ part ∈ parts, Derives usable .expression part) :
      Derives usable .expression (enclosed '[' ']' parts)
  | map {parts : List (List Token)} (entries : ∀ part ∈ parts, Derives usable .entry part) :
      Derives usable .expression (enclosed '\x7b' '\x7d' parts)
  | keyword {word : String} {value : List Token} (given : Derives usable .expression value) :
      Derives usable .keyword (.argument word :: value)
  | entry {key value : List Token} (left : Derives usable .expression key)
      (right : Derives usable .expression value) :
      Derives usable .entry (key ++ .mark ':' :: value)

theorem nests_separated {parts : List (List Token)} (each : ∀ part ∈ parts, Nests part) :
    Nests (separated parts) := by
  induction parts with
  | nil => exact Nests.nil
  | cons part rest ih =>
    obtain ⟨first, others⟩ := forall_mem_cons.mp each
    cases rest with
    | nil => simpa [separated] using first
    | cons next later =>
      have comma : Nests [.mark ','] := nests_mark (by decide) (by decide)
      have whole := first.append (comma.append (ih others))
      simpa [separated, intercalate_cons_cons] using whole

theorem mem_separated {parts : List (List Token)} {word : String}
    (named : .name word ∈ separated parts) : ∃ part ∈ parts, .name word ∈ part := by
  induction parts with
  | nil => simp [separated] at named
  | cons part rest ih =>
    cases rest with
    | nil =>
      refine ⟨part, mem_cons_self, ?_⟩
      simpa [separated] using named
    | cons next later =>
      simp only [separated, intercalate_cons_cons, mem_append, mem_singleton,
        reduceCtorEq, false_or, or_assoc] at named
      rcases named with here | there
      · exact ⟨part, mem_cons_self, here⟩
      · obtain ⟨other, member, inside⟩ := ih there
        exact ⟨other, mem_cons_of_mem _ member, inside⟩

section Derivations

variable {usable : String → Prop} {form : Form} {tokens : List Token}

variable (derives : Derives usable form tokens)

include derives

theorem Derives.nests : Nests tokens := by
  have round : ∀ {parts : List (List Token)}, (∀ part ∈ parts, Nests part) →
      Nests (enclosed '(' ')' parts) := fun each =>
    nests_bracketed rfl (by decide) (nests_separated each)
  have square : ∀ {parts : List (List Token)}, (∀ part ∈ parts, Nests part) →
      Nests (enclosed '[' ']' parts) := fun each =>
    nests_bracketed rfl (by decide) (nests_separated each)
  induction derives with
  | name => exact nests_name _
  | number => exact fun _ _ => rfl
  | quoted => exact fun _ _ => rfl
  | negative _ ih => exact Nests.append (nests_mark (by decide) (by decide)) ih
  | member _ _ ih =>
    exact ih.append (Nests.append (nests_mark (by decide) (by decide)) (nests_name _))
  | call _ _ _ function values named =>
    refine function.append (round fun part member => ?_)
    rcases mem_append.mp member with positional | keyword
    · exact values part positional
    · exact named part keyword
  | index _ _ _ object values => exact object.append (square values)
  | list _ values => exact square values
  | map _ entries => exact nests_bracketed rfl (by decide) (nests_separated entries)
  | keyword _ ih => exact fun opened rest => ih opened rest
  | entry _ _ key value =>
    exact key.append (Nests.append (nests_mark (by decide) (by decide)) value)

theorem Derives.usable_of_mem {word : String} (named : .name word ∈ tokens) : usable word := by
  have bracketed : ∀ {sign close : Char} {parts : List (List Token)},
      .name word ∈ enclosed sign close parts → ∃ part ∈ parts, .name word ∈ part := by
    intro sign close parts member
    exact mem_separated (by simpa [enclosed] using member)
  induction derives with
  | name allowed =>
    obtain rfl : word = _ := by simpa using named
    exact allowed
  | number => simp at named
  | quoted => simp at named
  | negative _ ih => exact ih (by simpa using named)
  | member _ allowed ih =>
    rcases mem_append.mp named with inner | last
    · exact ih inner
    · obtain rfl : word = _ := by simpa using last
      exact allowed
  | call _ _ _ function values keywords =>
    rcases mem_append.mp named with called | inside
    · exact function called
    · obtain ⟨part, member, here⟩ := bracketed inside
      rcases mem_append.mp member with positional | keyword
      · exact values part positional here
      · exact keywords part keyword here
  | index _ _ _ object values =>
    rcases mem_append.mp named with indexed | inside
    · exact object indexed
    · obtain ⟨part, member, here⟩ := bracketed inside
      exact values part member here
  | list _ values =>
    obtain ⟨part, member, here⟩ := bracketed named
    exact values part member here
  | map _ entries =>
    obtain ⟨part, member, here⟩ := bracketed named
    exact entries part member here
  | keyword _ ih => exact ih (by simpa using named)
  | entry _ _ key value =>
    rcases mem_append.mp named with left | right
    · exact key left
    · exact value (by simpa using right)

theorem Derives.mono {more : String → Prop} (wider : ∀ word, usable word → more word) :
    Derives more form tokens := by
  induction derives with
  | name allowed => exact .name (wider _ allowed)
  | number => exact .number
  | quoted => exact .quoted
  | negative _ ih => exact .negative ih
  | member _ allowed ih => exact .member ih (wider _ allowed)
  | call _ _ _ function values keywords => exact .call function values keywords
  | index _ nonempty _ object values => exact .index object nonempty values
  | list _ values => exact .list values
  | map _ entries => exact .map entries
  | keyword _ ih => exact .keyword ih
  | entry _ _ key value => exact .entry key value

end Derivations

end Bindery.Code

import Bindery.Naming.Words
import Mathlib

/-!
# A number behind a name

Types are told apart by a number behind their name, and their modules by the
number behind the module's name.  This works because a digit never starts a new
part of a word: the module name of a numbered name is the module name of the
name with the number behind it.

The first half says what the words of a name are made of, so that the name of a
type is always a single word.  The second half follows the splitting of that
word into parts, whose last part takes the digits up.
-/

namespace Bindery.Naming

open List String

structure IsWord (text : List Char) : Prop where
  nonempty : text ≠ []
  chars : ∀ c ∈ text, isWordChar c = true

def AllDigits (text : List Char) : Prop :=
  ∀ c ∈ text, c.isDigit = true

variable {c : Char}

theorem not_isUpper_of_isDigit (digit : c.isDigit = true) : c.isUpper = false := by
  simp_all only [Char.isDigit, Char.isUpper, Bool.and_eq_true, decide_eq_true_eq]
  grind

theorem not_isLower_of_isDigit (digit : c.isDigit = true) : c.isLower = false := by
  simp_all only [Char.isDigit, Char.isLower, Bool.and_eq_true, decide_eq_true_eq]
  grind

theorem toLower_of_isDigit (digit : c.isDigit = true) : c.toLower = c := by
  simp_all only [Char.isDigit, Char.toLower, Bool.and_eq_true, decide_eq_true_eq]
  grind

theorem isWordChar_toUpper (inWord : isWordChar c = true) : isWordChar c.toUpper = true := by
  simp_all only [isWordChar, Char.isAlphanum, Char.isAlpha, Char.isUpper, Char.isLower,
    Char.isDigit, Char.toUpper, Bool.and_eq_true, Bool.or_eq_true, decide_eq_true_eq]
  grind

theorem isWordChar_toLower (inWord : isWordChar c = true) : isWordChar c.toLower = true := by
  simp_all only [isWordChar, Char.isAlphanum, Char.isAlpha, Char.isUpper, Char.isLower,
    Char.isDigit, Char.toLower, Bool.and_eq_true, Bool.or_eq_true, decide_eq_true_eq]
  grind

theorem isWordChar_of_isDigit (digit : c.isDigit = true) : isWordChar c = true := by
  simp [isWordChar, Char.isAlphanum, digit]

/-! ## Words -/

variable {current rest : List Char}

theorem mem_wordsFrom {word : List Char} (before : ∀ c ∈ current, isWordChar c = true)
    (isWord : word ∈ wordsFrom current rest) : IsWord word := by
  induction rest generalizing current with
  | nil =>
    rw [wordsFrom] at isWord
    split at isWord
    · simp at isWord
    · rename_i filled
      obtain rfl := mem_singleton.1 isWord
      exact ⟨by simpa using filled, by simpa using before⟩
  | cons c rest ih =>
    rw [wordsFrom] at isWord
    split at isWord
    · rename_i inWord
      exact ih (by simpa [inWord] using before) isWord
    split at isWord
    · exact ih (by simp) isWord
    · rename_i filled
      rcases mem_cons.1 isWord with rfl | later
      · exact ⟨by simpa using filled, by simpa using before⟩
      · exact ih (by simp) later

theorem wordsFrom_of_isWord (inWord : ∀ c ∈ rest, isWordChar c = true)
    (filled : current ++ rest ≠ []) : wordsFrom current rest = [current.reverse ++ rest] := by
  induction rest generalizing current with
  | nil =>
    simp_all [wordsFrom]
  | cons c rest ih =>
    rw [wordsFrom, if_pos (inWord c (by simp)),
      ih (fun d member => inWord d (by simp [member])) (by simp)]
    simp

theorem words_of_isWord {raw : String} (isWord : IsWord raw.toList) : words raw = [raw.toList] := by
  have whole : [] ++ raw.toList ≠ [] := isWord.nonempty
  exact wordsFrom_of_isWord isWord.chars whole

theorem isWordChar_of_mem_joinedWords {raw : String} (member : c ∈ joinedWords raw) :
    isWordChar c = true := by
  obtain ⟨word, isWord, inside⟩ := mem_flatMap.1 member
  have chars := (mem_wordsFrom (by simp) isWord).chars
  cases word with
  | nil => simp [capitalizeWord] at inside
  | cons first rest =>
    rcases mem_cons.1 inside with rfl | later
    · exact isWordChar_toUpper (chars first (by simp))
    · exact chars c (by simp [later])

/-- A name with capital initials is a single word if its fallback is one. -/
theorem isWord_pascalCase_of {fallback : String} (isWord : IsWord fallback.toList)
    (raw : String) : IsWord (pascalCase raw fallback).toList := by
  have chars {c : Char} := @isWordChar_of_mem_joinedWords c raw
  rw [pascalCase]
  split
  · exact isWord
  · rename_i first rest joined
    rw [joined] at chars
    split
    · refine ⟨by simp, ?_⟩
      intro c member
      rw [toList_ofList] at member
      rcases mem_append.1 member with letter | inside
      · exact isWord.chars c (mem_of_mem_take letter)
      · exact chars inside
    · exact ⟨by simp, by simpa using fun c => @chars c⟩

theorem isWord_pascalCase (raw : String) : IsWord (pascalCase raw).toList :=
  isWord_pascalCase_of ⟨by decide, all_eq_true.mp (by decide)⟩ raw

/-! ## Parts of a word -/

theorem mem_splitWord {part : List Char} (isPart : part ∈ splitWord current rest)
    (inside : c ∈ part) : c ∈ current ∨ c ∈ rest := by
  fun_induction splitWord current rest with
  | case1 current =>
    obtain rfl := mem_singleton.1 isPart
    exact .inl (by simpa using inside)
  | case2 d rest ih =>
    simpa using ih isPart
  | case3 d rest before earlier splits ih =>
    rcases mem_cons.1 isPart with rfl | later
    · exact .inl (by simpa [or_comm] using inside)
    · exact .inr (by simpa using ih later)
  | case4 d rest before earlier joined ih =>
    have place := ih isPart
    grind

theorem ne_nil_of_mem_splitWord {part : List Char} (filled : current ≠ [])
    (isPart : part ∈ splitWord current rest) : part ≠ [] := by
  fun_induction splitWord current rest with
  | case1 current =>
    obtain rfl := mem_singleton.1 isPart
    simpa using filled
  | case2 =>
    contradiction
  | case3 d rest before earlier splits ih =>
    rcases mem_cons.1 isPart with rfl | later
    · simp
    · exact ih (by simp) later
  | case4 d rest before earlier joined ih =>
    exact ih (by simp) isPart

variable {digits : List Char}

theorem splitWord_digits (filled : current ≠ []) (numeric : AllDigits digits) :
    splitWord current digits = [current.reverse ++ digits] := by
  induction digits generalizing current with
  | nil => simp [splitWord]
  | cons c rest ih =>
    obtain ⟨before, earlier, rfl⟩ := exists_cons_of_ne_nil filled
    have notUpper := not_isUpper_of_isDigit (numeric c (by simp))
    have joined : splitsBetween before c rest.head? = false := by
      simp [splitsBetween, notUpper]
    rw [splitWord, joined, if_neg (by simp),
      ih (by simp) fun d member => numeric d (by simp [member])]
    simp

/-- Digits behind a character never decide whether the word splits before it. -/
theorem splitsBetween_append {before after : Char} (numeric : AllDigits digits) :
    splitsBetween before after (rest ++ digits).head? = splitsBetween before after rest.head? := by
  cases rest with
  | cons => simp
  | nil =>
    have none : digits.head?.any Char.isLower = false := by
      cases digits with
      | nil => rfl
      | cons c _ => simpa using not_isLower_of_isDigit (numeric c (by simp))
    simp [splitsBetween, none]

/-- The parts of a word with digits behind it: only the last part changes. -/
theorem splitWord_append (rest : List Char) (filled : current ≠ []) (numeric : AllDigits digits) :
    ∃ front last, splitWord current rest = front ++ [last] ∧
      splitWord current (rest ++ digits) = front ++ [last ++ digits] := by
  induction rest generalizing current with
  | nil =>
    exact ⟨[], current.reverse, rfl, splitWord_digits filled numeric⟩
  | cons c rest ih =>
    obtain ⟨before, earlier, rfl⟩ := exists_cons_of_ne_nil filled
    rw [cons_append, splitWord, splitWord, splitsBetween_append numeric]
    split
    · obtain ⟨front, last, parts, longer⟩ := ih (cons_ne_nil c [])
      exact ⟨(before :: earlier).reverse :: front, last, by rw [parts]; rfl, by rw [longer]; rfl⟩
    · exact ih (by simp)

theorem intercalate_append_last {α : Type} (separator : List α) (front : List (List α))
    (last behind : List α) :
    separator.intercalate (front ++ [last ++ behind]) =
      separator.intercalate (front ++ [last]) ++ behind := by
  induction front with
  | nil => simp
  | cons piece front ih =>
    rw [List.cons_append, List.cons_append, List.intercalate_cons_of_ne_nil (by simp),
      List.intercalate_cons_of_ne_nil (by simp), ih]
    simp

/-! ## Module names -/

/-- The module name of a single word joins the parts of that word. -/
theorem joinedParts_of_isWord {raw : String} {first : Char} (isWord : IsWord raw.toList)
    (characters : raw.toList = first :: rest) :
    joinedParts raw =
      ['_'].intercalate ((splitWord [first] rest).map fun part => part.map Char.toLower) := by
  have parts : (words raw).flatMap (splitWord []) = splitWord [first] rest := by
    rw [words_of_isWord isWord, characters]
    simp [splitWord]
  have nonempty : ∀ part ∈ splitWord [first] rest, (!part.isEmpty) = true := by
    intro part isPart
    simpa using ne_nil_of_mem_splitWord (by simp) isPart
  rw [joinedParts, parts, filter_eq_self.2 nonempty]

variable {base : String}

variable (isWord : IsWord base.toList)

include isWord

theorem isWord_append (numeric : AllDigits digits) : IsWord (base ++ ofList digits).toList := by
  refine ⟨by simp [isWord.nonempty], fun c member => ?_⟩
  rw [toList_append, toList_ofList] at member
  rcases mem_append.1 member with old | digit
  · exact isWord.chars c old
  · exact isWordChar_of_isDigit (numeric c digit)

theorem joinedParts_append (numeric : AllDigits digits) :
    joinedParts (base ++ ofList digits) = joinedParts base ++ digits := by
  obtain ⟨first, rest, characters⟩ := exists_cons_of_ne_nil isWord.nonempty
  have longer : (base ++ ofList digits).toList = first :: (rest ++ digits) := by
    simp [characters]
  have lowered : digits.map Char.toLower = digits :=
    (map_congr_left fun c member => toLower_of_isDigit (numeric c member)).trans
      (map_id _)
  obtain ⟨front, last, parts, more⟩ := splitWord_append rest (cons_ne_nil first []) numeric
  rw [joinedParts_of_isWord isWord characters,
    joinedParts_of_isWord (isWord_append isWord numeric) longer, parts, more]
  simp only [map_append, map_cons, map_nil, lowered]
  exact intercalate_append_last _ _ _ _

theorem head_joinedParts :
    ∃ first rest, joinedParts base = first :: rest ∧ isWordChar first = true := by
  obtain ⟨first, rest, characters⟩ := exists_cons_of_ne_nil isWord.nonempty
  rw [joinedParts_of_isWord isWord characters]
  cases split : splitWord [first] rest with
  | nil =>
    obtain ⟨front, last, parts, -⟩ :=
      splitWord_append rest (cons_ne_nil first []) (forall_mem_nil _)
    simp [split] at parts
  | cons part later =>
    have isPart : part ∈ splitWord [first] rest := by
      simp [split]
    obtain ⟨c, behind, rfl⟩ :=
      exists_cons_of_ne_nil (ne_nil_of_mem_splitWord (by simp) isPart)
    have inWord : isWordChar c = true := by
      refine isWord.chars c ?_
      simpa [characters] using mem_splitWord isPart (mem_cons_self)
    rw [map_cons, map_cons, intercalate_cons_cons_left]
    exact ⟨c.toLower, _, rfl, isWordChar_toLower inWord⟩

/-- The module name of a numbered name is the module name with the number behind it. -/
theorem toList_snakeCase_append (numeric : AllDigits digits) :
    (snakeCase (base ++ ofList digits)).toList = (snakeCase base).toList ++ digits := by
  obtain ⟨first, rest, joined, -⟩ := head_joinedParts isWord
  rw [snakeCase, snakeCase, joinedParts_append isWord numeric, joined]
  simp only [cons_append]
  split <;> simp

end Bindery.Naming

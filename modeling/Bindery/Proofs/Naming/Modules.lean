import Bindery.Code.Mention
import Bindery.Naming.Reserved
import Bindery.Proofs.Naming.Words
import Mathlib

/-!
# Names that emitted code can use

A raw name may be any text, and still the name of a module made of it is an
identifier.  It joins parts of small letters and digits with underscores, so that
it starts with a letter, does not end with an underscore, and is the same in
lower case.  Therefore an underscore behind a module name that is a keyword makes
it neither a keyword nor the name of another module.
-/

namespace Bindery

open List String Text

variable {text : String} {c : Char}

namespace Code

def isIdentifier (text : String) : Bool :=
  match text.toList with
  | [] => false
  | first :: rest => isNameStart first && rest.all isNameChar

theorem isIdentifier_of_toList {first : Char} {rest : List Char}
    (characters : text.toList = first :: rest) (start : isNameStart first = true)
    (inside : ∀ c ∈ rest, isNameChar c = true) : isIdentifier text = true := by
  rw [isIdentifier, characters]
  simp only [start, Bool.true_and, all_eq_true]
  exact inside

theorem isIdentifier_append {more : String} (identifier : isIdentifier text = true)
    (inside : ∀ c ∈ more.toList, isNameChar c = true) : isIdentifier (text ++ more) = true := by
  unfold isIdentifier at identifier
  split at identifier
  next => cases identifier
  next first rest characters =>
    simp only [Bool.and_eq_true, all_eq_true] at identifier
    have longer : (text ++ more).toList = first :: (rest ++ more.toList) := by
      rw [toList_append, characters, cons_append]
    apply isIdentifier_of_toList longer identifier.1
    exact forall_mem_append.mpr ⟨identifier.2, inside⟩

end Code

namespace Text

theorem toNat_lt_of_isWordChar (inWord : Naming.isWordChar c = true) : c.toNat < 128 := by
  simp only [Naming.isWordChar, Char.isAlphanum, Char.isAlpha, Char.isUpper, Char.isLower,
    Char.isDigit, Bool.and_eq_true, Bool.or_eq_true, decide_eq_true_eq, ge_iff_le,
    UInt32.le_iff_toNat_le] at inWord
  have lastCapital : 'Z'.val.toNat = 90 := rfl
  have lastSmall : 'z'.val.toNat = 122 := rfl
  have lastDigit : '9'.val.toNat = 57 := rfl
  have code : c.toNat = c.val.toNat := rfl
  omega

/-- Below the other ranges, each character has one lower-case form wherever it stands. -/
theorem lowerAfter_cons (ascii : c.toNat < 128) (before rest : List Char) :
    lowerAfter before (c :: rest) = c.toLower :: lowerAfter (c :: before) rest := by
  have noSigma : c.toNat ≠ 931 := by omega
  simp only [lowerAfter, if_neg noSigma, lowerChar, if_pos ascii]
  rfl

/-- Whether a character of the ASCII range is its own lower-case form. -/
def isPlain (c : Char) : Bool :=
  decide (c.toNat < 128) && c.toLower == c

theorem lowerAfter_eq_self (before : List Char) {text : List Char}
    (plain : text.all isPlain = true) : lowerAfter before text = text := by
  induction text generalizing before with
  | nil => rfl
  | cons c rest ih =>
    simp only [all_cons, isPlain, Bool.and_eq_true, decide_eq_true_eq, beq_iff_eq] at plain
    rw [lowerAfter_cons plain.1.1, plain.1.2, ih (c :: before) plain.2]

theorem lower_eq_self (plain : text.toList.all isPlain = true) : lower text = text := by
  rw [lower, lowerAfter_eq_self [] plain, ofList_toList]

end Text

namespace Naming

open Code

theorem isNameChar_of_isWordChar (inWord : isWordChar c = true) : isNameChar c = true := by
  rw [isNameChar, Bool.or_eq_true]
  exact .inl inWord

theorem isNameStart_of_isWordChar (inWord : isWordChar c = true) (letter : c.isDigit = false) :
    isNameStart c = true := by
  rw [isWordChar, Char.isAlphanum, letter, Bool.or_false] at inWord
  rw [isNameStart, inWord, Bool.true_or]

theorem isIdentifier_of_isWord (isWord : IsWord text.toList)
    (letter : text.toList.head?.all (!·.isDigit) = true) : isIdentifier text = true := by
  obtain ⟨first, rest, characters⟩ := exists_cons_of_ne_nil isWord.nonempty
  have chars := isWord.chars
  rw [characters] at letter chars
  apply isIdentifier_of_toList characters
  · exact isNameStart_of_isWordChar (chars first mem_cons_self) (by simpa using letter)
  · intro c member
    exact isNameChar_of_isWordChar (chars c (mem_cons_of_mem first member))

/-! ## Names of modules -/

/-- The characters of the parts of module names. -/
def isPartChar (c : Char) : Bool :=
  c.isLower || c.isDigit

theorem isPartChar_toLower (inWord : isWordChar c = true) : isPartChar c.toLower = true := by
  simp_all only [isWordChar, isPartChar, Char.isAlphanum, Char.isAlpha, Char.isUpper, Char.isLower,
    Char.isDigit, Char.toLower, Bool.and_eq_true, Bool.or_eq_true, decide_eq_true_eq]
  grind

/-- Small letters, digits and underscores, with no underscore at either end. -/
structure IsJoined (text : List Char) : Prop where
  front : ∃ first rest, text = first :: rest ∧ isPartChar first = true
  chars : ∀ c ∈ text, isPartChar c = true ∨ c = '_'
  back : text.getLast? ≠ some '_'

theorem IsJoined.of_part {part : List Char} (filled : part ≠ [])
    (chars : ∀ c ∈ part, isPartChar c = true) : IsJoined part := by
  obtain ⟨first, rest, rfl⟩ := exists_cons_of_ne_nil filled
  refine ⟨⟨first, rest, rfl, chars first mem_cons_self⟩, fun c member => .inl (chars c member), ?_⟩
  intro ends
  have underscore := chars '_' (mem_of_getLast? ends)
  cases underscore

theorem IsJoined.append {first second : List Char} (joined : IsJoined first)
    (joined' : IsJoined second) : IsJoined (first ++ '_' :: second) := by
  obtain ⟨head, tail, rfl, start⟩ := joined.front
  obtain ⟨head', tail', rfl, -⟩ := joined'.front
  refine ⟨⟨head, _, rfl, start⟩, ?_, ?_⟩
  · intro c member
    rcases mem_append.mp member with before | after
    · exact joined.chars c before
    · rcases mem_cons.mp after with rfl | later
      · exact .inr rfl
      · exact joined'.chars c later
  · rw [getLast?_append_of_ne_nil _ (cons_ne_nil _ _), getLast?_cons_cons]
    exact joined'.back

theorem isJoined_intercalate {parts : List (List Char)} (some : parts ≠ [])
    (each : ∀ part ∈ parts, IsJoined part) : IsJoined (['_'].intercalate parts) := by
  induction parts with
  | nil => contradiction
  | cons part rest ih =>
    have here := each part mem_cons_self
    by_cases last : rest = []
    · subst last
      simpa using here
    · have there := ih last fun other member => each other (mem_cons_of_mem part member)
      rw [intercalate_cons_of_ne_nil last]
      simpa using here.append there

/-- Whatever a raw name is made of, its parts can be joined. -/
theorem isJoined_joinedParts {raw : String} (some : joinedParts raw ≠ []) :
    IsJoined (joinedParts raw) := by
  rw [joinedParts] at some ⊢
  apply isJoined_intercalate
  · intro none
    rw [none] at some
    exact some rfl
  · intro part member
    obtain ⟨original, kept, rfl⟩ := mem_map.mp member
    obtain ⟨split, filled⟩ := mem_filter.mp kept
    obtain ⟨word, isWord, inside⟩ := mem_flatMap.mp split
    apply IsJoined.of_part
    · simpa using filled
    · intro c lowered
      obtain ⟨d, present, rfl⟩ := mem_map.mp lowered
      rcases mem_splitWord inside present with none | there
      · cases none
      · exact isPartChar_toLower ((mem_wordsFrom (by simp) isWord).chars d there)

/-- Module names are joined parts with a letter in front. -/
structure IsModule (text : List Char) : Prop extends IsJoined text where
  letter : text.head?.all Char.isLower = true

theorem isModule_snakeCase (raw : String) : IsModule (snakeCase raw).toList := by
  rw [snakeCase]
  split
  next =>
    have part : IsJoined "value".toList :=
      .of_part (by decide) (all_eq_true.mp (by decide))
    exact ⟨part, by decide⟩
  next first rest parts =>
    have joined : IsJoined (joinedParts raw) := isJoined_joinedParts (by simp [parts])
    rw [parts] at joined
    split
    next digit =>
      rw [toList_ofList]
      refine ⟨⟨⟨_, _, rfl, by decide⟩, ?_, ?_⟩, rfl⟩
      · exact forall_mem_cons.mpr ⟨.inl (by decide), joined.chars⟩
      · rw [getLast?_cons_cons]
        exact joined.back
    next letter =>
      rw [toList_ofList]
      obtain ⟨_, _, same, start⟩ := joined.front
      cases same
      refine ⟨joined, ?_⟩
      simpa [isPartChar, letter] using start

namespace IsModule

variable {text : List Char}

theorem head_ne (isModule : IsModule text) : text.head? ≠ some '_' := by
  intro underscore
  have letter := isModule.letter
  rw [underscore] at letter
  cases letter

theorem isIdentifier {name : String} (isModule : IsModule name.toList) :
    isIdentifier name = true := by
  obtain ⟨first, rest, characters, -⟩ := isModule.front
  have letter := isModule.letter
  have chars := isModule.chars
  rw [characters] at letter chars
  have small : first.isLower = true := by simpa using letter
  apply isIdentifier_of_toList characters
  · simp [isNameStart, Char.isAlpha, small]
  · intro c member
    rcases chars c (mem_cons_of_mem first member) with part | rfl
    · rw [isPartChar, Bool.or_eq_true] at part
      rcases part with lower | digit
      · simp [isNameChar, Char.isAlphanum, Char.isAlpha, lower]
      · simp [isNameChar, Char.isAlphanum, digit]
    · rfl

end IsModule

theorem toLower_of_isLower (small : c.isLower = true) : c.toLower = c := by
  simp_all only [Char.isLower, Char.toLower, Bool.and_eq_true, decide_eq_true_eq]
  grind

/-- The characters of module names are their own lower-case forms. -/
theorem isPlain_of_isPartChar (inside : isPartChar c = true ∨ c = '_') : isPlain c = true := by
  rcases inside with part | rfl
  · rw [isPartChar, Bool.or_eq_true] at part
    rcases part with small | digit
    · have inWord : isWordChar c = true := by
        simp [isWordChar, Char.isAlphanum, Char.isAlpha, small]
      simp [isPlain, toNat_lt_of_isWordChar inWord, toLower_of_isLower small]
    · have inWord := isWordChar_of_isDigit digit
      simp [isPlain, toNat_lt_of_isWordChar inWord, toLower_of_isDigit digit]
  · decide

/-- No keyword ends with an underscore. -/
theorem not_isKeyword_append_underscore (name : String) : isKeyword (name ++ "_") = false := by
  have noUnderscore : ∀ keyword ∈ keywords, keyword.toList.getLast? ≠ some '_' := by
    decide
  rw [isKeyword, contains_eq_mem, decide_eq_false_iff_not]
  intro isKeyword
  apply noUnderscore _ isKeyword
  simp

/-- The names that modules can be imported and told apart by: identifiers in lower case that are no
keywords and do not start like the units that every package has. -/
structure IsUsable (module : String) : Prop where
  identifier : isIdentifier module = true
  noKeyword : isKeyword module = false
  plain : module.toList.all isPlain = true
  head : module.toList.head? ≠ some '_'

theorem IsModule.isUsable {module : String} (isModule : IsModule module.toList)
    (noKeyword : isKeyword module = false) : IsUsable module where
  identifier := isModule.isIdentifier
  noKeyword := noKeyword
  plain := all_eq_true.mpr fun c member => isPlain_of_isPartChar (isModule.chars c member)
  head := isModule.head_ne

/-- With an underscore behind it, a module name is usable even if it is a keyword. -/
theorem IsModule.isUsable_append_underscore {module : String}
    (isModule : IsModule module.toList) : IsUsable (module ++ "_") where
  identifier := isIdentifier_append isModule.isIdentifier (all_eq_true.mp (by decide))
  noKeyword := not_isKeyword_append_underscore module
  plain := by
    rw [toList_append, all_append, Bool.and_eq_true]
    refine ⟨all_eq_true.mpr fun c member => ?_, by decide⟩
    exact isPlain_of_isPartChar (isModule.chars c member)
  head := by
    obtain ⟨first, rest, characters, -⟩ := isModule.front
    rw [toList_append, head?_append_of_ne_nil _ (by simp [characters])]
    exact isModule.head_ne

end Naming

end Bindery

import Bindery.Naming.Assignment
import Bindery.Proofs.Naming.Modules
import Mathlib.Data.Finset.Card
import Mathlib.Data.Finset.Range

/-!
# Distinct names

The search for an available name is bounded, so it has to be shown that the
bound suffices.  A number behind a name determines the number, in the name as
in the name of the module.  So each reserved name and each earlier type stops at
most one member of a numbered sequence, and each earlier module at most one; a
keyword stops at most the member without a number.  The bound is their sum.
-/

namespace Bindery.Naming

open Code List

/-! ## Numbered names -/

def numberDigits (index : Nat) : List Char :=
  if index = 0 then [] else Nat.toDigits 10 (index + 1)

theorem numbered_eq (base : String) (index : Nat) :
    numbered base index = base ++ String.ofList (numberDigits index) := by
  rw [numbered, numberDigits]
  split <;> simp [Text.decimal]

theorem allDigits_numberDigits (index : Nat) : AllDigits (numberDigits index) := by
  intro c member
  rw [numberDigits] at member
  split at member
  · simp at member
  · exact Nat.isDigit_of_mem_toDigits (by decide) (by decide) member

theorem numberDigits_ne_nil {index : Nat} (numbered : index ≠ 0) : numberDigits index ≠ [] := by
  rw [numberDigits, if_neg numbered]
  exact Nat.toDigits_ne_nil

theorem numberDigits_injective : Function.Injective numberDigits := by
  intro first second same
  by_cases firstZero : first = 0
  · by_contra different
    have secondNumbered : second ≠ 0 := fun zero => different (firstZero.trans zero.symm)
    exact numberDigits_ne_nil secondNumbered (same.symm.trans (by simp [numberDigits, firstZero]))
  by_cases secondZero : second = 0
  · exact absurd (same.trans (by simp [numberDigits, secondZero])) (numberDigits_ne_nil firstZero)
  rw [numberDigits, numberDigits, if_neg firstZero, if_neg secondZero] at same
  have values := congrArg (fun digits => Nat.ofDigitChars 10 digits 0) same
  simpa using values

theorem toList_numbered (base : String) (index : Nat) :
    (numbered base index).toList = base.toList ++ numberDigits index := by
  simp [numbered_eq]

theorem toList_snakeCase_numbered {base : String} (isWord : IsWord base.toList) (index : Nat) :
    (snakeCase (numbered base index)).toList = (snakeCase base).toList ++ numberDigits index := by
  rw [numbered_eq, toList_snakeCase_append isWord (allDigits_numberDigits index)]

/-- Texts that continue one text with the digits of an index determine the index. -/
theorem injective_of_numberDigits {name : Nat → String} {front : List Char}
    (named : ∀ index, (name index).toList = front ++ numberDigits index) :
    Function.Injective name := by
  intro first second same
  have texts := congrArg String.toList same
  rw [named, named] at texts
  exact numberDigits_injective (append_cancel_left texts)

variable {name : String}

/-- A keyword does not end in a digit, so a number behind a text makes it no keyword. -/
theorem not_isKeyword_of_numberDigits {front : List Char} {index : Nat}
    (named : name.toList = front ++ numberDigits index) (numbered : index ≠ 0) :
    isKeyword name = false := by
  have noDigit : ∀ keyword ∈ keywords,
      (keyword.toList.getLast?.any Char.isDigit) = false := by
    decide
  rw [isKeyword, contains_eq_mem, decide_eq_false_iff_not]
  intro isKeyword
  have last := noDigit name isKeyword
  have filled := numberDigits_ne_nil numbered
  rw [named, getLast?_append_of_ne_nil _ filled, getLast?_eq_some_getLast filled] at last
  have digit := allDigits_numberDigits index _ (getLast_mem filled)
  simp [digit] at last

/-! ## The bounded search -/

/-- The search finds an available name if fewer indices than it tries are stopped. -/
theorem isAvailable_firstAvailable {isAvailable : String → Bool} {base : String} {bound : Nat}
    (stopped : Finset Nat) (few : stopped.card ≤ bound)
    (stops : ∀ index ≤ bound, isAvailable (numbered base index) = false → index ∈ stopped) :
    isAvailable (firstAvailable isAvailable base bound) = true := by
  rw [firstAvailable]
  split
  · rename_i index found
    have available := find?_some found
    exact available
  · rename_i exhausted
    rw [find?_eq_none] at exhausted
    by_contra unavailable
    have all : Finset.range (bound + 1) ⊆ stopped := by
      intro index member
      have within : index ≤ bound := Nat.lt_succ_iff.1 (Finset.mem_range.1 member)
      refine stops index within ?_
      rcases Nat.lt_or_eq_of_le within with earlier | rfl
      · simpa using exhausted index (mem_range.2 earlier)
      · simpa using unavailable
    have card := Finset.card_le_card all
    rw [Finset.card_range] at card
    omega

/-- Distinct texts meet a list at most as often as it is long. -/
theorem card_filter_mem_le {name : Nat → String} (distinct : Function.Injective name)
    (names : List String) (bound : Nat) :
    ((Finset.range bound).filter fun index => name index ∈ names).card ≤ names.length := by
  refine (Finset.card_le_card_of_injOn name ?_ distinct.injOn).trans names.toFinset_card_le
  intro index member
  simpa using (Finset.mem_filter.1 member).2

/-- A name is found if the indices that can be stopped are few: some given ones, those of taken
names, and those whose modules earlier names have. -/
theorem isAvailable_firstAvailable_of_taken {isAvailable : String → Bool} {base : String}
    {bound : Nat} (isWord : IsWord base.toList) (others : Finset Nat) (taken earlier : List String)
    (few : others.card + taken.length + earlier.length ≤ bound)
    (stops : ∀ index, isAvailable (numbered base index) = false → index ∈ others ∨
      numbered base index ∈ taken ∨ snakeCase (numbered base index) ∈ earlier.map snakeCase) :
    isAvailable (firstAvailable isAvailable base bound) = true := by
  let indices := Finset.range (bound + 1)
  let isTaken := indices.filter fun index => numbered base index ∈ taken
  let isModule := indices.filter fun index =>
    snakeCase (numbered base index) ∈ earlier.map snakeCase
  have ofTaken : isTaken.card ≤ taken.length :=
    card_filter_mem_le (injective_of_numberDigits (toList_numbered base)) _ _
  have ofModule : isModule.card ≤ (earlier.map snakeCase).length :=
    card_filter_mem_le (injective_of_numberDigits (toList_snakeCase_numbered isWord)) _ _
  have union := Finset.card_union_le others (isTaken ∪ isModule)
  have union' := Finset.card_union_le isTaken isModule
  rw [length_map] at ofModule
  refine isAvailable_firstAvailable (others ∪ (isTaken ∪ isModule)) (by omega) ?_
  intro index within unavailable
  have inRange : index ∈ indices := Finset.mem_range.2 (Nat.lt_succ_of_le within)
  simpa [isTaken, isModule, inRange] using stops index unavailable

theorem isAvailableType_typeName (earlier : List String) (proposed : String) :
    isAvailableType earlier (typeName earlier proposed) = true := by
  have isWord := isWord_pascalCase proposed
  refine isAvailable_firstAvailable_of_taken isWord {0} (reserved ++ earlier) earlier ?_ ?_
  · simp only [Finset.card_singleton, length_append]
    omega
  · intro index unavailable
    by_cases zero : index = 0
    · exact .inl (Finset.mem_singleton.2 zero)
    have notKeyword :=
      not_isKeyword_of_numberDigits (toList_snakeCase_numbered isWord index) zero
    have head := (isModule_snakeCase (numbered (pascalCase proposed) index)).head_ne
    simp only [isAvailableType, isReserved, contains_eq_mem] at unavailable
    grind

/-! ## Assigned names -/

theorem keys_assignAfter (earlier : List String) (types : List (String × String)) :
    (assignAfter earlier types).1.map Prod.fst = types.map Prod.fst := by
  induction types generalizing earlier with
  | nil => rfl
  | cons type types ih =>
    simp [assignAfter, ih]

/-- Each assigned name differs from all before it, and so does its module. -/
theorem distinct_assignAfter (earlier : List String) (types : List (String × String))
    (modules : (earlier.map snakeCase).Nodup) :
    ((earlier ++ (assignAfter earlier types).1.map Prod.snd).map snakeCase).Nodup := by
  induction types generalizing earlier with
  | nil => simpa [assignAfter] using modules
  | cons type types ih =>
    have available := isAvailableType_typeName earlier type.2
    have fresh : snakeCase (typeName earlier type.2) ∉ earlier.map snakeCase := by
      simp only [isAvailableType, Bool.and_eq_true] at available
      simpa using available.1.1.2
    have longer : ((earlier ++ [typeName earlier type.2]).map snakeCase).Nodup := by
      rw [map_append, map_singleton]
      exact nodup_append'.2 ⟨modules, nodup_singleton _, by simpa using fresh⟩
    simpa [assignAfter] using ih _ longer

section

variable (types : List (String × String))

theorem keys_assignNames : (assignNames types).1.map Prod.fst = types.map Prod.fst :=
  keys_assignAfter [] types

theorem nodup_modules_assignNames : (((assignNames types).1.map Prod.snd).map snakeCase).Nodup :=
  distinct_assignAfter [] types nodup_nil

theorem nodup_assignNames : ((assignNames types).1.map Prod.snd).Nodup :=
  (nodup_modules_assignNames types).of_map _

end

/-! ## Names that code can use -/

theorem head_pascalCase (raw : String) : (pascalCase raw).toList.head?.all (!·.isDigit) = true := by
  rw [pascalCase]
  split
  next => decide
  next first rest joined =>
    split
    next digit => simp
    next letter => simpa using letter

theorem firstAvailable_eq_numbered (isAvailable : String → Bool) (base : String) (bound : Nat) :
    ∃ index, firstAvailable isAvailable base bound = numbered base index ∧
      ∀ before < index, isAvailable (numbered base before) = false := by
  rw [firstAvailable]
  split
  next index found =>
    obtain ⟨-, -, least⟩ := find?_range_eq_some.mp found
    exact ⟨index, rfl, fun before smaller => by simpa using least before smaller⟩
  next exhausted =>
    rw [find?_eq_none] at exhausted
    exact ⟨bound, rfl, fun before smaller => by
      simpa using exhausted before (mem_range.mpr smaller)⟩

/-- Types have identifiers as names. -/
theorem isIdentifier_typeName (earlier : List String) (proposed : String) :
    isIdentifier (typeName earlier proposed) = true := by
  have isWord := isWord_pascalCase proposed
  obtain ⟨index, same, -⟩ := firstAvailable_eq_numbered (isAvailableType earlier)
    (pascalCase proposed) (reserved.length + 2 * earlier.length + 1)
  rw [typeName, same]
  apply isIdentifier_of_isWord
  · rw [numbered_eq]
    exact isWord_append isWord (allDigits_numberDigits index)
  · rw [toList_numbered, head?_append_of_ne_nil _ isWord.nonempty]
    exact head_pascalCase proposed

/-- What holds of every name that a type can get holds of all assigned names. -/
theorem forall_assignAfter (holds : String → Prop)
    (each : ∀ earlier proposed, holds (typeName earlier proposed)) (earlier : List String)
    (types : List (String × String)) {named : String × String}
    (member : named ∈ (assignAfter earlier types).1) : holds named.2 := by
  induction types generalizing earlier with
  | nil => cases member
  | cons type types ih =>
    simp only [assignAfter, mem_cons] at member
    rcases member with same | later
    · simp only [same, each]
    · exact ih (earlier ++ [typeName earlier type.2]) later

variable {types : List (String × String)} {key : String}

theorem isIdentifier_assignNames (member : (key, name) ∈ (assignNames types).1) :
    isIdentifier name = true :=
  forall_assignAfter (isIdentifier · = true) isIdentifier_typeName [] types member

/-! ## Capital initials -/

theorem isLower_head_joinedWords {raw : String} {first : Char} {rest : List Char}
    (joined : joinedWords raw = first :: rest) : first.isLower = false := by
  unfold joinedWords at joined
  generalize words raw = parts at joined
  induction parts with
  | nil => cases joined
  | cons part parts ih =>
    cases part with
    | nil => exact ih joined
    | cons c others =>
      cases joined
      exact Char.isLower_toUpper_eq_false c

theorem capital_pascalCase (raw : String) :
    (pascalCase raw).toList.head?.all (!·.isLower) = true := by
  rw [pascalCase]
  split
  next => decide
  next first rest joined =>
    split
    next => simp
    next => simpa using isLower_head_joinedWords joined

variable (member : (key, name) ∈ (assignNames types).1)

include member

/-- No type gets a name that starts with a small letter. -/
theorem capital_assignNames : name.toList.head?.all (!·.isLower) = true := by
  have each (earlier : List String) (proposed : String) :
      (typeName earlier proposed).toList.head?.all (!·.isLower) = true := by
    obtain ⟨index, same, -⟩ := firstAvailable_eq_numbered (isAvailableType earlier)
      (pascalCase proposed) (reserved.length + 2 * earlier.length + 1)
    rw [typeName, same, toList_numbered,
      head?_append_of_ne_nil _ (isWord_pascalCase proposed).nonempty]
    exact capital_pascalCase proposed
  have plain := forall_assignAfter (fun name => name.toList.head?.all (!·.isLower) = true) each []
    types member
  exact plain

/-- No type gets a reserved name. -/
theorem not_reserved_nor_keyword_assignNames :
    isReserved name = false ∧ isKeyword (snakeCase name) = false := by
  have each (earlier : List String) (proposed : String) :
      isReserved (typeName earlier proposed) = false ∧
        isKeyword (snakeCase (typeName earlier proposed)) = false := by
    have available := isAvailableType_typeName earlier proposed
    simp only [isAvailableType, Bool.and_eq_true, Bool.not_eq_true'] at available
    exact ⟨available.1.1.1.1, available.1.2⟩
  have plain := forall_assignAfter (fun name => isReserved name = false ∧
    isKeyword (snakeCase name) = false) each [] types member
  exact plain

end Bindery.Naming

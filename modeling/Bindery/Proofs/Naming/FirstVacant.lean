import Bindery.Proofs.Naming.Assignment
import Bindery.Proofs.Value.Entries

/-!
# The first vacant name

Types are named one after the other.  A name is vacant if it is not reserved, no
earlier type has it, and its module is neither a keyword nor the module of an
earlier type.  Each type gets the first vacant name of its numbered sequence, so
the search for it ends, and the names of later types have no influence on it.  A
type is reported if and only if it did not get the name that the sequence starts
with.
-/

namespace Bindery.Naming

open Code List

/-- A name that a type can get next to the earlier ones. -/
structure IsVacant (earlier : List String) (name : String) : Prop where
  unreserved : name ∉ reserved
  unused : name ∉ earlier
  moduleUnused : snakeCase name ∉ earlier.map snakeCase
  moduleUnreserved : snakeCase name ∉ keywords

variable {name key proposed : String} {types : List (String × String)}

theorem isAvailableType_iff {earlier : List String} :
    isAvailableType earlier name = true ↔ IsVacant earlier name := by
  -- A module name never starts with an underscore, so that this is no condition of its own.
  have head := (isModule_snakeCase name).head_ne
  simp only [isAvailableType, isReserved, isKeyword, Bool.and_eq_true, Bool.not_eq_true',
    contains_eq_mem, decide_eq_false_iff_not, bne_iff_ne, ne_eq, head, not_false_eq_true,
    and_true]
  constructor
  · rintro ⟨⟨⟨unreserved, unused⟩, moduleUnused⟩, moduleUnreserved⟩
    exact ⟨unreserved, unused, moduleUnused, moduleUnreserved⟩
  · rintro ⟨unreserved, unused, moduleUnused, moduleUnreserved⟩
    exact ⟨⟨⟨unreserved, unused⟩, moduleUnused⟩, moduleUnreserved⟩

/-- The first vacant name of the sequence `base`, `base2`, `base3`, … -/
def IsFirstVacant (earlier : List String) (base name : String) : Prop :=
  ∃ index, name = numbered base index ∧ IsVacant earlier name ∧
    ∀ before < index, ¬IsVacant earlier (numbered base before)

/-- The search for a name ends at the first vacant one. -/
theorem isFirstVacant_typeName (earlier : List String) (proposed : String) :
    IsFirstVacant earlier (pascalCase proposed) (typeName earlier proposed) := by
  obtain ⟨index, same, least⟩ := firstAvailable_eq_numbered (isAvailableType earlier)
    (pascalCase proposed) (reserved.length + 2 * earlier.length + 1)
  refine ⟨index, same, isAvailableType_iff.mp (isAvailableType_typeName earlier proposed), ?_⟩
  intro before smaller vacant
  rw [← isAvailableType_iff, least before smaller] at vacant
  cases vacant

/-! ## Names in turn -/

/-- The reports of a type: one if it did not get its base name. -/
def reportsOf (key base name : String) : List Diagnostic :=
  if name = base then [] else [collision key base name]

theorem location_of_mem_reportsOf {base : String} {report : Diagnostic}
    (member : report ∈ reportsOf key base name) :
    report.code = .identifierCollision ∧ report.location = some key := by
  rw [reportsOf] at member
  split at member
  · cases member
  · rw [mem_singleton.mp member]
    exact ⟨rfl, rfl⟩

/-- Every type gets the first name that is vacant next to the earlier ones and those of the types
in front of it. -/
theorem getElem?_assignAfter (earlier : List String) {index : Nat}
    (listed : types[index]? = some (key, proposed)) :
    ∃ name, (assignAfter earlier types).1[index]? = some (key, name) ∧
      IsFirstVacant (earlier ++ ((assignAfter earlier types).1.take index).map Prod.snd)
        (pascalCase proposed) name := by
  induction types generalizing earlier index with
  | nil => cases listed
  | cons type rest ih =>
    cases index with
    | zero =>
      obtain rfl : type = (key, proposed) := by simpa using listed
      refine ⟨typeName earlier proposed, rfl, ?_⟩
      simpa using isFirstVacant_typeName earlier proposed
    | succ index =>
      obtain ⟨name, found, first⟩ := ih (earlier ++ [typeName earlier type.2]) listed
      refine ⟨name, found, ?_⟩
      simpa [assignAfter] using first

theorem reports_assignAfter (earlier : List String) (types : List (String × String)) :
    (assignAfter earlier types).2 = (types.zip (assignAfter earlier types).1).flatMap fun pair =>
      reportsOf pair.1.1 (pascalCase pair.1.2) pair.2.2 := by
  induction types generalizing earlier with
  | nil => rfl
  | cons type rest ih =>
    simp only [assignAfter, zip_cons_cons, flatMap_cons, ← ih]
    rfl

/-- The reports with the key of a type are its own ones. -/
theorem filter_reports {names : List (String × String)} (distinct : (types.map Prod.fst).Nodup)
    {index : Nat} (listed : types[index]? = some (key, proposed))
    (named : names[index]? = some (key, name)) : ((types.zip names).flatMap fun pair =>
        reportsOf pair.1.1 (pascalCase pair.1.2) pair.2.2).filter (·.location = some key) =
      reportsOf key (pascalCase proposed) name := by
  have own : (reportsOf key (pascalCase proposed) name).filter (·.location = some key) =
      reportsOf key (pascalCase proposed) name :=
    filter_eq_self.mpr fun report member =>
      decide_eq_true (location_of_mem_reportsOf member).2
  induction types generalizing index names with
  | nil => cases listed
  | cons type rest ih =>
    obtain ⟨fresh, distinct⟩ := nodup_cons.mp distinct
    cases names with
    | nil => cases named
    | cons first others =>
      rw [zip_cons_cons, flatMap_cons, filter_append]
      cases index with
      | zero =>
        obtain rfl : type = (key, proposed) := by simpa using listed
        obtain rfl : first = (key, name) := by simpa using named
        -- No later type has the key, so no later report has it as its place.
        have none : ∀ report ∈ (rest.zip others).flatMap fun pair =>
            reportsOf pair.1.1 (pascalCase pair.1.2) pair.2.2,
            ¬decide (report.location = some key) = true := by
          intro report member same
          obtain ⟨pair, inside, made⟩ := mem_flatMap.mp member
          rw [decide_eq_true_eq, (location_of_mem_reportsOf made).2, Option.some.injEq] at same
          exact fresh (mem_map.mpr ⟨pair.1, (of_mem_zip inside).1, same⟩)
        rw [filter_eq_nil_iff.mpr none, append_nil]
        exact own
      | succ index =>
        have other : key ≠ type.1 := by
          rintro rfl
          exact fresh (mem_map.mpr ⟨_, mem_of_getElem? listed, rfl⟩)
        have skipped : ∀ report ∈ reportsOf type.1 (pascalCase type.2) first.2,
            ¬decide (report.location = some key) = true := by
          intro report member same
          rw [decide_eq_true_eq, (location_of_mem_reportsOf member).2, Option.some.injEq]
            at same
          exact other same.symm
        rw [filter_eq_nil_iff.mpr skipped, nil_append]
        exact ih distinct listed named

/-! ## Names of types -/

/-- An identifier with a capital in front that is not reserved, and whose module is no keyword. -/
structure IsTypeName (name : String) : Prop where
  identifier : isIdentifier name = true
  capital : ∃ first rest, name.toList = first :: rest ∧ first.isUpper = true
  unreserved : name ∉ reserved
  moduleUnreserved : snakeCase name ∉ keywords

theorem exists_capital_pascalCase (raw : String) :
    ∃ first rest, (pascalCase raw).toList = first :: rest ∧ first.isUpper = true := by
  have isWord := isWord_pascalCase raw
  obtain ⟨first, rest, characters⟩ := exists_cons_of_ne_nil isWord.nonempty
  have noDigit := head_pascalCase raw
  have large := capital_pascalCase raw
  have inWord := isWord.chars first (by simp [characters])
  rw [characters] at noDigit large
  refine ⟨first, rest, characters, ?_⟩
  simp_all [isWordChar, Char.isAlphanum, Char.isAlpha]

theorem isTypeName_typeName (earlier : List String) (proposed : String) :
    IsTypeName (typeName earlier proposed) where
  identifier := isIdentifier_typeName earlier proposed
  capital := by
    obtain ⟨index, same, -⟩ := isFirstVacant_typeName earlier proposed
    obtain ⟨first, rest, characters, capital⟩ := exists_capital_pascalCase proposed
    refine ⟨first, rest ++ numberDigits index, ?_, capital⟩
    rw [same, toList_numbered, characters, cons_append]
  unreserved := (isAvailableType_iff.mp (isAvailableType_typeName earlier proposed)).unreserved
  moduleUnreserved :=
    (isAvailableType_iff.mp (isAvailableType_typeName earlier proposed)).moduleUnreserved

/--
Types with distinct keys get names one after the other.  Every key gets one name; the names are
distinct, and so are their modules.  Each name is an identifier with a capital in front that is not
reserved, and its module is no keyword.  It is the first name of the sequence from the base name on
that is vacant next to the reserved names and the types in front.  The type is reported, once, if
and only if its name is not its base name, and nothing else is reported.
-/
theorem assignNames_first_vacant (types : List (String × String))
    (distinct : (types.map Prod.fst).Nodup) :
    (assignNames types).1.map Prod.fst = types.map Prod.fst ∧
    ((assignNames types).1.map Prod.snd).Nodup ∧
    (((assignNames types).1.map Prod.snd).map snakeCase).Nodup ∧
    (∀ index key proposed, types[index]? = some (key, proposed) →
      ∃ name, (assignNames types).1.lookup key = some name ∧ IsTypeName name ∧
        IsFirstVacant (((assignNames types).1.take index).map Prod.snd) (pascalCase proposed)
          name ∧
        (assignNames types).2.filter (·.location = some key) =
          reportsOf key (pascalCase proposed) name) ∧
    ∀ report ∈ (assignNames types).2, report.code = .identifierCollision ∧
      ∃ key ∈ types.map Prod.fst, report.location = some key := by
  refine ⟨keys_assignNames types, nodup_assignNames types, nodup_modules_assignNames types, ?_, ?_⟩
  · intro index key proposed listed
    obtain ⟨name, found, first⟩ := getElem?_assignAfter [] listed
    have member := List.mem_of_getElem? found
    refine ⟨name, ?_, ?_, first, ?_⟩
    · have keys : ((assignNames types).1.map Prod.fst).Nodup := keys_assignNames types ▸ distinct
      exact lookup_of_mem keys member
    · exact forall_assignAfter IsTypeName isTypeName_typeName [] types member
    · rw [assignNames, reports_assignAfter]
      exact filter_reports distinct listed found
  · intro report member
    rw [assignNames, reports_assignAfter] at member
    obtain ⟨pair, inside, made⟩ := List.mem_flatMap.mp member
    obtain ⟨code, location⟩ := location_of_mem_reportsOf made
    exact ⟨code, pair.1.1, List.mem_map_of_mem (List.of_mem_zip inside).1, location⟩

/-- Types whose names meet those of earlier types, their modules, reserved names and keywords. -/
def crowdedTypes : List (String × String) :=
  [("#/0", "pet2"), ("#/1", "pet"), ("#/2", "PET"), ("#/3", "Pet!"), ("#/4", "class"),
    ("#/5", "any"), ("#/6", "9 lives"), ("#/7", "~"), ("#/8", "schema")]

theorem assignNames_first_vacant_of_crowded :
    (crowdedTypes.map Prod.fst).Nodup ∧
    (assignNames crowdedTypes).1.map Prod.snd =
      ["Pet2", "Pet", "PET3", "Pet4", "Class2", "Any2", "S9Lives", "Schema", "Schema2"] ∧
    ∃ name, (assignNames crowdedTypes).1.lookup "#/3" = some name ∧ IsTypeName name ∧
      IsFirstVacant ["Pet2", "Pet", "PET3"] "Pet" name ∧
      (assignNames crowdedTypes).2.filter (·.location = some "#/3") =
        reportsOf "#/3" "Pet" name := by
  have distinct : (crowdedTypes.map Prod.fst).Nodup := by decide
  have names : (assignNames crowdedTypes).1.map Prod.snd =
      ["Pet2", "Pet", "PET3", "Pet4", "Class2", "Any2", "S9Lives", "Schema", "Schema2"] := by
    decide +kernel
  obtain ⟨-, -, -, each, -⟩ := assignNames_first_vacant crowdedTypes distinct
  obtain ⟨name, looked, isTypeName, first, reports⟩ := each 3 "#/3" "Pet!" rfl
  have base : pascalCase "Pet!" = "Pet" := by decide +kernel
  rw [List.map_take, names, base] at first
  rw [base] at reports
  exact ⟨distinct, names, name, looked, isTypeName, first, reports⟩

end Bindery.Naming

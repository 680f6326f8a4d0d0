import Bindery.Dialect.Lift
import Bindery.Proofs.Dialect.Walks
import Bindery.Proofs.Value.Entries

/-!
# References pointed at their new places

When a 2.0 document is converted, every reference into a section that is moved
is pointed at its new place.  Main statement: this commutes with the conversion of
schemas from 3.0 to 3.1, which looks at keywords, truth values and the null text
only and moves no value to or from a reference key.
-/

namespace Bindery

open List Entries Option

namespace Dialect

/-! ## References in entries -/

theorem moveReferencesList_eq_map (items : List Value) :
    moveReferencesList items = items.map moveReferences := by
  induction items with
  | nil => rfl
  | cons head tail ih => rw [moveReferencesList, ih, map_cons]

/-- What stands under a key when references are pointed at their new places. -/
def movedUnder (key : Scalar) (value : Value) : Value :=
  match value with
  | .scalar (.str text) => .str (if key = .str "$ref" then moveReference text else text)
  | value => moveReferences value

variable {key : Scalar} {value : Value} {name : String}

theorem movedUnder_eq_moveReferences (plain : ∀ text, key = .str "$ref" → value ≠ .str text) :
    movedUnder key value = moveReferences value := by
  unfold movedUnder
  split
  next text =>
    have differ : key ≠ .str "$ref" := fun same => plain text same rfl
    rw [if_neg differ, moveReferences]
  next => rfl

theorem movedUnder_of_ne (differ : key ≠ .str "$ref") (value : Value) :
    movedUnder key value = moveReferences value :=
  movedUnder_eq_moveReferences fun _ same => absurd same differ

@[simp]
theorem movedUnder_map (key : Scalar) (entries : Entries) :
    movedUnder key (.map entries) = .map (moveReferencesEntries entries) := by
  rw [movedUnder, moveReferences]
  rintro text ⟨⟩

@[simp]
theorem movedUnder_list (key : Scalar) (items : List Value) :
    movedUnder key (.list items) = .list (items.map moveReferences) := by
  rw [movedUnder, moveReferences, moveReferencesList_eq_map]
  rintro text ⟨⟩

theorem moveReferencesEntries_cons (key : Scalar) (value : Value) (rest : Entries) :
    moveReferencesEntries ((key, value) :: rest) =
      (key, movedUnder key value) :: moveReferencesEntries rest := by
  unfold movedUnder
  split
  next text => rw [moveReferencesEntries]
  next other => rw [moveReferencesEntries]; exact other

theorem moveReferencesEntries_eq_map (entries : Entries) :
    moveReferencesEntries entries =
      entries.map fun entry => (entry.1, movedUnder entry.1 entry.2) := by
  induction entries with
  | nil => rfl
  | cons head tail ih => rw [moveReferencesEntries_cons, ih, map_cons]

theorem get?_moveReferencesEntries (name : String) (entries : Entries) :
    get? name (moveReferencesEntries entries) =
      (entries.get? name).map (movedUnder (.str name)) := by
  rw [moveReferencesEntries_eq_map]
  exact get?_map movedUnder name entries

/-- The value under each key but the reference key is changed by itself. -/
theorem get?_moveReferencesEntries_of_ne (plain : name ≠ "$ref") (entries : Entries) :
    get? name (moveReferencesEntries entries) =
      (entries.get? name).map moveReferences := by
  have differ : Scalar.str name ≠ .str "$ref" := by simpa using plain
  rw [get?_moveReferencesEntries, funext (movedUnder_of_ne differ)]

theorem moveReferencesEntries_erase (name : String) (entries : Entries) :
    moveReferencesEntries (entries.erase name) =
      Entries.erase name (moveReferencesEntries entries) := by
  simp only [moveReferencesEntries_eq_map, Entries.erase, List.filter_map]
  rfl

theorem moveReferencesEntries_set (name : String) (value : Value) (entries : Entries) :
    moveReferencesEntries (entries.set name value) =
      Entries.set name (movedUnder (.str name) value) (moveReferencesEntries entries) := by
  induction entries with
  | nil => rw [Entries.set, moveReferencesEntries_cons]; rfl
  | cons head tail ih =>
    obtain ⟨key, old⟩ := head
    by_cases same : key = .str name
    · simp [Entries.set, moveReferencesEntries_cons, same]
    · simp [Entries.set, moveReferencesEntries_cons, same, ih]

/-! ## What stays as it is -/

theorem movedUnder_eq_bool_iff {flag : Bool} :
    movedUnder key value = .bool flag ↔ value = .bool flag := by
  cases value with
  | scalar scalar => cases scalar <;> simp [movedUnder, moveReferences]
  | list items => simp [movedUnder, moveReferences]
  | map entries => simp [movedUnder, moveReferences]

theorem moveReferences_eq_null_iff : moveReferences value = .null ↔ value = .null := by
  cases value <;> simp [moveReferences]

theorem isText_moveReferences (value : Value) (text : String) :
    (moveReferences value).isText text = value.isText text := by
  cases value <;> rfl

theorem get?_moveReferencesEntries_eq_bool_iff {entries : Entries} {flag : Bool} :
    get? name (moveReferencesEntries entries) = some (.bool flag) ↔
      entries.get? name = some (.bool flag) := by
  rw [get?_moveReferencesEntries, map_eq_some_iff]
  constructor
  · rintro ⟨value, found, moved⟩
    rw [found, movedUnder_eq_bool_iff.mp moved]
  · intro found
    exact ⟨_, found, rfl⟩

theorem has_moveReferencesEntries (name : String) (entries : Entries) :
    has name (moveReferencesEntries entries) = entries.has name := by
  rw [has, has, get?_moveReferencesEntries, isSome_map]

/-! ## Rules on one schema object -/

/-- A rule gives the same before and after references are pointed at their new places. -/
def Commutes (rule : Entries → Entries) : Prop :=
  ∀ node, moveReferencesEntries (rule node) = rule (moveReferencesEntries node)

theorem Commutes.comp {first second : Entries → Entries} (later : Commutes second)
    (earlier : Commutes first) : Commutes fun node => second (first node) := by
  intro node
  rw [later, earlier]

theorem moveReferences_addNullType (kind : Value) :
    moveReferences (addNullType kind) = addNullType (moveReferences kind) := by
  cases kind with
  | list kinds =>
    have listed : (kinds.map moveReferences).any (·.isText "null") =
        kinds.any (·.isText "null") := by
      simp only [List.any_map, Function.comp_def, isText_moveReferences]
    simp only [addNullType, moveReferences, moveReferencesList_eq_map, listed]
    split
    · rfl
    · rw [List.map_append]
      rfl
  | scalar scalar =>
    simp only [addNullType, moveReferences, moveReferencesList_eq_map,
      apply_ite (List.map moveReferences)]
    rfl
  | map entries =>
    rfl

theorem commutes_addNullMember : Commutes addNullMember := by
  intro node
  unfold addNullMember
  rw [get?_moveReferencesEntries]
  cases found : node.get? "enum" with
  | none => rfl
  | some value =>
    cases value with
    | scalar scalar => cases scalar <;> rfl
    | map entries => rfl
    | list values =>
      have listed : (values.map moveReferences).contains .null = values.contains .null := by
        simp only [contains_eq_mem, List.mem_map, moveReferences_eq_null_iff,
          exists_eq_right]
      simp only [map_some, movedUnder_list, listed]
      split
      · rfl
      · rw [moveReferencesEntries_set, movedUnder_list, map_append]
        rfl

theorem commutes_upgradeNull : Commutes upgradeNull := by
  intro node
  simp only [upgradeNull, get?_moveReferencesEntries_eq_bool_iff, ← moveReferencesEntries_erase]
  split
  · rw [get?_moveReferencesEntries]
    cases (node.erase "nullable").get? "type" with
    | none => exact moveReferencesEntries_set ..
    | some kind =>
      simp only [map_some]
      rw [commutes_addNullMember, moveReferencesEntries_set, movedUnder_of_ne (by decide),
        movedUnder_of_ne (by decide), moveReferences_addNullType]
  · rfl

theorem commutes_upgradeExclusive {exclusive bound : String} (plain : exclusive ≠ "$ref")
    (plain' : bound ≠ "$ref") : Commutes (upgradeExclusive exclusive bound) := by
  intro node
  have apart {name : String} (differ : name ≠ "$ref") : Scalar.str name ≠ .str "$ref" := by
    simpa using differ
  by_cases raised : node.get? exclusive = some (.bool true)
  · simp only [upgradeExclusive, raised, get?_moveReferencesEntries_eq_bool_iff.mpr raised]
    rw [get?_moveReferencesEntries]
    cases node.get? bound with
    | none => exact moveReferencesEntries_erase ..
    | some limit =>
      simp only [map_some]
      rw [moveReferencesEntries_set, moveReferencesEntries_erase,
        movedUnder_of_ne (apart plain), movedUnder_of_ne (apart plain')]
  · by_cases lowered : node.get? exclusive = some (.bool false)
    · simp only [upgradeExclusive, lowered, get?_moveReferencesEntries_eq_bool_iff.mpr lowered]
      exact moveReferencesEntries_erase ..
    · have kept (entries : Entries) (notTrue : entries.get? exclusive ≠ some (.bool true))
          (notFalse : entries.get? exclusive ≠ some (.bool false)) :
          upgradeExclusive exclusive bound entries = entries := by
        unfold upgradeExclusive
        split
        · contradiction
        · contradiction
        · rfl
      rw [kept node raised lowered, kept]
      · rwa [Ne, get?_moveReferencesEntries_eq_bool_iff]
      · rwa [Ne, get?_moveReferencesEntries_eq_bool_iff]

theorem commutes_upgradeExample : Commutes upgradeExample := by
  intro node
  unfold upgradeExample
  rw [get?_moveReferencesEntries, has_moveReferencesEntries]
  cases node.get? "example" with
  | none => rfl
  | some sample =>
    simp only [map_some]
    split
    · rfl
    · rw [moveReferencesEntries_set, moveReferencesEntries_erase,
        movedUnder_of_ne (by decide), movedUnder_of_ne (by decide)]
      rfl

theorem commutes_upgradeNode : Commutes upgradeNode := by
  apply commutes_upgradeExample.comp
  apply (commutes_upgradeExclusive (by decide) (by decide)).comp
  apply (commutes_upgradeExclusive (by decide) (by decide)).comp
  exact commutes_upgradeNull

/-! ## Whole schemas -/

/-- What stands under a keyword is walked before or after the step, if all smaller schemas are. -/
theorem movedUnder_walkPart {rule : Entries → Entries} (key : Scalar) (value : Value)
    (inner : ∀ part : Value, part.weight ≤ value.weight → ∀ name,
      movedUnder name (walk rule part) = walk rule (movedUnder name part)) :
    movedUnder key (walkPart rule key value) = walkPart rule key (movedUnder key value) := by
  cases value with
  | scalar value => cases value <;> simp only [movedUnder, moveReferences, walkPart]
  | list items =>
    rw [movedUnder_list, walkPart, walkPart, walkList_eq_map, walkList_eq_map]
    split
    · rw [movedUnder_list, List.map_map, List.map_map]
      refine congrArg Value.list (map_congr_left fun item inside => ?_)
      simpa [movedUnder_of_ne] using inner item (Nat.le_of_lt (Value.weight_lt_of_mem inside)) .null
    · rw [movedUnder_list]
  | map entries =>
    rw [movedUnder_map, walkPart, walkPart, walkNamed_eq_map, walkNamed_eq_map]
    split
    · rw [movedUnder_map, moveReferencesEntries_eq_map, moveReferencesEntries_eq_map, List.map_map,
        List.map_map]
      exact congrArg Value.map (map_congr_left fun entry inside =>
        Prod.ext rfl (inner entry.2 (Nat.le_of_lt (Value.weight_lt_of_mem_entries inside)) entry.1))
    · split
      · have moved := inner (.map entries) (Nat.le_refl _) key
        rwa [movedUnder_map] at moved
      · rw [movedUnder_map]

/-- A rule that commutes with the step does so when it is applied to every schema object. -/
theorem movedUnder_walk {rule : Entries → Entries} (commutes : Commutes rule) (schema : Value) :
    ∀ name, movedUnder name (walk rule schema) = walk rule (movedUnder name schema) := by
  induction schema using Value.induction with
  | step schema ih =>
    intro name
    cases schema with
    | scalar value => cases value <;> simp only [walk, movedUnder, moveReferences]
    | list items => rw [movedUnder_list, walk, walk, movedUnder_list]
    | map entries =>
      rw [movedUnder_map, walk, walk, movedUnder_map, commutes, walkEntries_eq_map,
        walkEntries_eq_map, moveReferencesEntries_eq_map, moveReferencesEntries_eq_map,
        List.map_map, List.map_map]
      refine congrArg (Value.map ∘ rule) (map_congr_left fun entry member => Prod.ext rfl ?_)
      exact movedUnder_walkPart entry.1 entry.2 fun part below =>
        ih part (Nat.lt_of_le_of_lt below (Value.weight_lt_of_mem_entries member))

/-- References can be pointed at their new places before or after a schema is brought from 3.0 to
3.1. -/
theorem movedUnder_upgradeSchema (name : Scalar) (schema : Value) :
    movedUnder name (upgradeSchema schema) = upgradeSchema (movedUnder name schema) :=
  movedUnder_walk commutes_upgradeNode schema name

end Dialect

end Bindery

import Bindery.Location.Pointer
import Bindery.Value.Shape

/-!
# Parts of a value

A value is made of the values that stand in it, at any depth.  What stands under
a key is a part of a map, and what a pointer leads to is a part of the document.
In the end a value is built of scalars, those that stand in it and the keys of its maps,
and JSON has the value if it has them all.
-/

namespace Bindery

namespace Value

/-- A value is a part of another: it is the value itself or stands somewhere in it. -/
inductive PartOf (part : Value) : Value → Prop
  | itself : PartOf part part
  | entry {entries : Entries} {entry : Scalar × Value} (member : entry ∈ entries)
      (inside : PartOf part entry.2) : PartOf part (.map entries)
  | item {items : List Value} {item : Value} (member : item ∈ items)
      (inside : PartOf part item) : PartOf part (.list items)

theorem PartOf.trans {part middle whole : Value} (inner : part.PartOf middle)
    (outer : middle.PartOf whole) : part.PartOf whole := by
  induction outer with
  | itself => exact inner
  | entry member _ ih => exact .entry member ih
  | item member _ ih => exact .item member ih

section Shapes

variable {part : Value}

@[simp]
theorem partOf_scalar {scalar : Scalar} : part.PartOf (.scalar scalar) ↔ part = .scalar scalar := by
  constructor
  · rintro ⟨⟩
    rfl
  · rintro rfl
    exact .itself

@[simp]
theorem partOf_list {items : List Value} :
    part.PartOf (.list items) ↔ part = .list items ∨ ∃ item ∈ items, part.PartOf item := by
  constructor
  · rintro (_ | _ | ⟨member, inside⟩)
    · exact .inl rfl
    · exact .inr ⟨_, member, inside⟩
  · rintro (rfl | ⟨item, member, inside⟩)
    · exact .itself
    · exact .item member inside

@[simp]
theorem partOf_map {entries : Entries} :
    part.PartOf (.map entries) ↔ part = .map entries ∨ ∃ entry ∈ entries, part.PartOf entry.2 := by
  constructor
  · rintro (_ | ⟨member, inside⟩)
    · exact .inl rfl
    · exact .inr ⟨_, member, inside⟩
  · rintro (rfl | ⟨entry, member, inside⟩)
    · exact .itself
    · exact .entry member inside

end Shapes

theorem partOf_of_get? {value part : Value} {name : String}
    (found : value.get? name = some part) : part.PartOf value := by
  cases value with
  | map entries => exact .entry (Entries.mem_of_get? found) .itself
  | scalar _ => cases found
  | list _ => cases found

end Value

namespace Pointer

variable {reference : String} {value part : Value}

theorem mem_of_item? {items : List Value} {index : Int} (found : item? items index = some part) :
    part ∈ items := by
  unfold item? at found
  split at found
  · exact List.mem_of_getElem? found
  · split at found
    · exact List.mem_of_getElem? found
    · cases found

theorem partOf_of_step {segment : String} (found : step reference value segment = .ok part) :
    part.PartOf value := by
  cases value with
  | map entries =>
    simp only [step] at found
    split at found
    next stored =>
      cases found
      exact .entry (Entries.mem_of_get? stored) .itself
    next => cases found
  | list items =>
    simp only [step] at found
    split at found
    next listed =>
      cases found
      obtain ⟨index, -, stored⟩ := Option.bind_eq_some_iff.mp listed
      exact .item (mem_of_item? stored) .itself
    next => cases found
  | scalar _ => cases found

theorem partOf_of_resolve {pointer : String} (found : resolve reference value pointer = .ok part) :
    part.PartOf value := by
  rw [resolve] at found
  generalize segments pointer = steps at found
  induction steps generalizing value with
  | nil =>
    cases found
    exact .itself
  | cons segment rest ih =>
    rw [walk] at found
    split at found
    next stepped => exact (ih found).trans (partOf_of_step stepped)
    next => cases found

end Pointer

/-! ## Scalars -/

namespace Value

mutual

/-- The scalars a value is made of, with its keys. -/
def scalars : Value → List Scalar
  | .scalar value => [value]
  | .list items => scalarsList items
  | .map entries => scalarsEntries entries

def scalarsList : List Value → List Scalar
  | [] => []
  | item :: rest => scalars item ++ scalarsList rest

def scalarsEntries : List (Scalar × Value) → List Scalar
  | [] => []
  | (key, value) :: rest => key :: (scalars value ++ scalarsEntries rest)

end

theorem mem_scalarsList {scalar : Scalar} {items : List Value} :
    scalar ∈ scalarsList items ↔ ∃ item ∈ items, scalar ∈ item.scalars := by
  induction items with
  | nil => simp [scalarsList]
  | cons item rest ih => simp [scalarsList, ih]

theorem mem_scalars_of_needKey {value : Value} {key : Scalar} (needed : value.needKey = .ok key) :
    key ∈ value.scalars := by
  cases value with
  | scalar scalar =>
    cases needed
    exact List.mem_cons_self
  | list items => cases needed
  | map entries => cases needed

end Value

/-- Whether a scalar is one that JSON has. -/
def Scalar.isJson : Scalar → Bool
  | .bytes _ => false
  | .date _ => false
  | .dateTime _ => false
  | _ => true

@[simp]
theorem Scalar.isJson_null : Scalar.null.isJson = true :=
  rfl

@[simp]
theorem Scalar.isJson_bool (value : Bool) : (Scalar.bool value).isJson = true :=
  rfl

@[simp]
theorem Scalar.isJson_str (text : String) : (Scalar.str text).isJson = true :=
  rfl

/-- Every scalar of a value, also as a key, is one that JSON has. -/
def Value.IsJson (value : Value) : Prop :=
  ∀ scalar ∈ value.scalars, scalar.isJson = true

/-- The keys and the values of some entries are ones that JSON has. -/
def Entries.IsJson (entries : Entries) : Prop :=
  ∀ entry ∈ entries, entry.1.isJson = true ∧ entry.2.IsJson

namespace Value

variable {items : List Value} {entries : Entries}

@[simp]
theorem isJson_scalar {scalar : Scalar} : (Value.scalar scalar).IsJson ↔ scalar.isJson = true := by
  simp [IsJson, scalars]

@[simp]
theorem isJson_list : (Value.list items).IsJson ↔ ∀ item ∈ items, item.IsJson := by
  simp only [IsJson, scalars, mem_scalarsList]
  constructor
  · exact fun each item member scalar inside => each scalar ⟨item, member, inside⟩
  · rintro each scalar ⟨item, member, inside⟩
    exact each item member scalar inside

@[simp]
theorem isJson_map : (Value.map entries).IsJson ↔ entries.IsJson := by
  induction entries with
  | nil => simp [IsJson, Entries.IsJson, scalars, scalarsEntries]
  | cons entry rest ih =>
    have unfolded : (Value.map (entry :: rest)).IsJson ↔
        entry.1.isJson = true ∧ entry.2.IsJson ∧ (Value.map rest).IsJson := by
      simp [IsJson, scalars, scalarsEntries, or_imp, forall_and]
    rw [unfolded, ih, Entries.IsJson, Entries.IsJson, List.forall_mem_cons, and_assoc]

end Value

end Bindery

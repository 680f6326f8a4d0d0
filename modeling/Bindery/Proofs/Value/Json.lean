import Bindery.Proofs.Course
import Bindery.Proofs.Value.Entries
import Bindery.Proofs.Value.Parts

/-!
# Values that JSON has

A value read from JSON is made of texts, numbers, truth values and nulls; bytes
and calendar values come from YAML only.  The operations on entries and the
reading of values of unchecked shape stay among the values that JSON has.
-/

namespace Bindery

open Entries

namespace Entries

variable {entries : Entries} {name : String} {value : Value}

@[simp]
theorem isJson_nil : IsJson [] := by
  simp [IsJson]

@[simp]
theorem isJson_cons {entry : Scalar × Value} {rest : Entries} :
    IsJson (entry :: rest) ↔
      (entry.1.isJson = true ∧ entry.2.IsJson) ∧ IsJson rest :=
  List.forall_mem_cons

namespace IsJson

section

variable (json : entries.IsJson)

include json

theorem get? (found : entries.get? name = some value) : value.IsJson :=
  (json _ (mem_of_get? found)).2

/-- What stands under a key is a value that JSON has if what stands for an absent one is. -/
theorem getD {absent : Value} (fallback : absent.IsJson) (name : String) :
    ((entries.get? name).getD absent).IsJson := by
  cases found : entries.get? name with
  | none => exact fallback
  | some value => exact json.get? found

theorem present? (found : entries.present? name = some value) : value.IsJson :=
  json.get? (Option.filter_eq_some_iff.mp found).1

theorem presentD {absent : Value} (fallback : absent.IsJson) (name : String) :
    ((entries.present? name).getD absent).IsJson := by
  cases found : entries.present? name with
  | none => exact fallback
  | some value => exact json.present? found

theorem filter (keep : Scalar × Value → Bool) : IsJson (entries.filter keep) :=
  fun entry member => json entry (List.mem_of_mem_filter member)

theorem erase (name : String) : (entries.erase name).IsJson :=
  json.filter _

theorem put {key : Scalar} (named : key.isJson = true) (part : value.IsJson) :
    (entries.put key value).IsJson := by
  induction entries with
  | nil => simp [Entries.put, named, part]
  | cons head tail ih =>
    obtain ⟨first, rest⟩ := isJson_cons.mp json
    rw [Entries.put]
    split
    · exact isJson_cons.mpr ⟨⟨first.1, part⟩, rest⟩
    · exact isJson_cons.mpr ⟨first, ih rest⟩

theorem set (name : String) (part : value.IsJson) : (entries.set name value).IsJson := by
  rw [← put_str]
  exact json.put rfl part

end

theorem foldl_put {start : Entries} (json : start.IsJson) (added : entries.IsJson) :
    IsJson
      (entries.foldl (fun collected entry => collected.put entry.1 entry.2) start) := by
  induction entries generalizing start with
  | nil => exact json
  | cons head tail ih =>
    obtain ⟨first, rest⟩ := isJson_cons.mp added
    exact ih (json.put first.1 first.2) rest

theorem collect (json : entries.IsJson) : entries.collect.IsJson :=
  foldl_put isJson_nil json

/-- Entries stay as they are, apart from values that are changed among those that JSON has. -/
theorem map (json : entries.IsJson) {change : Scalar × Value → Scalar × Value}
    (keeps : ∀ entry, entry.1.isJson = true → entry.2.IsJson →
      (change entry).1.isJson = true ∧ (change entry).2.IsJson) :
    IsJson (entries.map change) := by
  intro entry member
  obtain ⟨old, inside, rfl⟩ := List.mem_map.mp member
  exact keeps old (json old inside).1 (json old inside).2

end IsJson

end Entries

namespace Value

variable {value : Value}

theorem IsJson.part {inner : Value} (json : value.IsJson) (inside : inner.PartOf value) :
    inner.IsJson := by
  induction inside with
  | itself => exact json
  | entry member _ ih => exact ih (isJson_map.mp json _ member).2
  | item member _ ih => exact ih (isJson_list.mp json _ member)

theorem IsJson.get? {stored : Value} (json : value.IsJson) {name : String}
    (found : value.get? name = some stored) : stored.IsJson :=
  json.part (partOf_of_get? found)

theorem IsJson.needEntries (json : value.IsJson) {entries : Entries}
    (read : value.needEntries = .ok entries) : entries.IsJson := by
  cases value with
  | map own =>
    cases read
    exact isJson_map.mp json
  | scalar _ => cases read
  | list _ => cases read

theorem IsJson.toEntries? (json : value.IsJson) {entries : Entries}
    (read : value.toEntries? = some entries) : entries.IsJson := by
  cases value with
  | map own =>
    cases read
    exact isJson_map.mp json
  | scalar _ => cases read
  | list _ => cases read

theorem IsJson.entriesOrNone {value : Option Value} (json : ∀ given ∈ value, given.IsJson)
    {entries : Entries} (read : Value.entriesOrNone value = .ok entries) : entries.IsJson := by
  cases value with
  | none =>
    cases read
    exact isJson_nil
  | some given => exact (json given rfl).needEntries read

/-- What a walk over a value meets is made of what the value is made of, or is new text or a
number. -/
theorem IsJson.needItems (json : value.IsJson) {items : List Value}
    (read : value.needItems = .ok items) : ∀ item ∈ items, item.IsJson := by
  cases value with
  | list own =>
    cases read
    exact isJson_list.mp json
  | map entries =>
    cases read
    intro item member
    obtain ⟨entry, inside, rfl⟩ := List.mem_map.mp member
    exact isJson_scalar.mpr (isJson_map.mp json entry inside).1
  | scalar scalar =>
    cases scalar with
    | str text =>
      cases read
      intro item member
      obtain ⟨character, -, rfl⟩ := List.mem_map.mp member
      exact isJson_scalar.mpr rfl
    | bytes bytes => cases isJson_scalar.mp json
    | _ => cases read

theorem IsJson.itemsOrNone {value : Option Value} (json : ∀ given ∈ value, given.IsJson)
    {items : List Value} (read : Value.itemsOrNone value = .ok items) :
    ∀ item ∈ items, item.IsJson := by
  cases value with
  | none =>
    cases read
    simp
  | some given => exact (json given rfl).needItems read

theorem IsJson.needKey (json : value.IsJson) {key : Scalar} (read : value.needKey = .ok key) :
    key.isJson = true :=
  json key (mem_scalars_of_needKey read)

end Value

end Bindery

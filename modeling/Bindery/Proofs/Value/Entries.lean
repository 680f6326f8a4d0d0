import Bindery.Value.Shape
import Mathlib.Data.List.Induction
import Mathlib.Data.List.Nodup
import Mathlib.Data.List.Perm.Basic

/-!
# Looking up entries

What a look-up by a text key finds after the operations on entries.  Each
operation changes the look-up of the keys it is about and no other, so a reader
of a map that uses look-ups only can be followed through a chain of them.

Maps of a document have no key twice.  Under that condition a look-up finds
exactly the values the entries hold, whatever their order.
-/

namespace Bindery

open List Scalar

variable {name : String}

theorem mem_of_lookup {α : Type} {pairs : List (String × α)} {value : α}
    (found : pairs.lookup name = some value) : (name, value) ∈ pairs := by
  obtain ⟨before, after, same, _⟩ := lookup_eq_some_iff.mp found
  rw [same]
  simp

/-- With distinct keys, a look-up finds every pair. -/
theorem lookup_of_mem {α : Type} {pairs : List (String × α)} {value : α}
    (distinct : (pairs.map Prod.fst).Nodup) (member : (name, value) ∈ pairs) :
    pairs.lookup name = some value := by
  have found : (pairs.lookup name).isSome = true :=
    lookup_isSome_iff.mpr ⟨_, member, BEq.rfl⟩
  obtain ⟨other, looked⟩ := Option.isSome_iff_exists.mp found
  have same := inj_on_of_nodup_map distinct (mem_of_lookup looked) member rfl
  rw [looked, (Prod.mk.inj same).2]

theorem eraseDups_concat (items : List String) (item : String) :
    (items ++ [item]).eraseDups =
      if item ∈ items then items.eraseDups else items.eraseDups ++ [item] := by
  rw [eraseDups_append]
  by_cases member : item ∈ items
  · simp [removeAll, member]
  · simp [removeAll, member, eraseDups_cons]

theorem nodup_eraseDups (items : List String) : items.eraseDups.Nodup := by
  induction items using reverseRecOn with
  | nil => exact nodup_nil
  | append_singleton items item ih =>
    rw [eraseDups_concat]
    split
    next => exact ih
    next fresh =>
      rw [← concat_eq_append]
      exact ih.concat (mt mem_eraseDups.mp fresh)

theorem Scalar.str_same (name : String) (key : Scalar) :
    (str name).same key = decide (str name = key) := by
  cases key <;> simp [same, toInt?]

theorem Scalar.same_str (key : Scalar) (name : String) :
    key.same (.str name) = decide (key = .str name) := by
  cases key <;> simp [same, toInt?]

namespace Entries

/-! ## One operation -/

theorem get?_set_self (name : String) (value : Value) (entries : Entries) :
    (entries.set name value).get? name = some value := by
  induction entries with
  | nil => simp [set, get?]
  | cons head tail ih =>
    obtain ⟨key, old⟩ := head
    by_cases same : key = .str name
    · simp [set, get?, same]
    · simp [set, get?, same, ih]

theorem get?_set_of_ne {other : String} (differ : other ≠ name) (value : Value) (entries : Entries) :
    (entries.set name value).get? other = entries.get? other := by
  induction entries with
  | nil => simp [set, get?, differ.symm]
  | cons head tail ih =>
    obtain ⟨key, old⟩ := head
    by_cases same : key = .str name
    · simp [set, get?, same, differ.symm]
    · simp [set, get?, same, ih]

theorem get?_set (name other : String) (value : Value) (entries : Entries) :
    (entries.set name value).get? other =
      if other = name then some value else entries.get? other := by
  split
  next same =>
    rw [same]
    exact get?_set_self name value entries
  next differ => exact get?_set_of_ne differ value entries

/-- A selection of entries by their keys hides the keys that are not selected. -/
theorem get?_filter (keep : Scalar → Bool) (name : String) (entries : Entries) :
    get? name (entries.filter fun entry => keep entry.1) =
      if keep (.str name) then entries.get? name else none := by
  induction entries with
  | nil => simp [get?]
  | cons head tail ih =>
    obtain ⟨key, value⟩ := head
    by_cases same : key = .str name
    · subst same
      by_cases kept : keep (.str name)
      · simp [kept, get?]
      · simp [kept, ih]
    · by_cases kept : keep key
      · simp [kept, get?, same, ih]
      · simp [kept, get?, same, ih]

theorem get?_erase (name other : String) (entries : Entries) :
    (entries.erase name).get? other = if other = name then none else entries.get? other := by
  rw [erase, get?_filter (fun key => decide (key ≠ .str name))]
  by_cases same : other = name <;> simp [same]

/-- A change of the values, key by key, changes what a look-up finds. -/
theorem get?_map (change : Scalar → Value → Value) (name : String) (entries : Entries) :
    get? name (entries.map fun entry => (entry.1, change entry.1 entry.2)) =
      (entries.get? name).map (change (.str name)) := by
  induction entries with
  | nil => rfl
  | cons head tail ih =>
    obtain ⟨key, value⟩ := head
    by_cases same : key = .str name
    · subst same
      simp [get?]
    · simp only [map_cons, get?, same, if_false, ih]

/-- Under a text key, putting a value by meaning is setting it. -/
theorem put_str (name : String) (value : Value) (entries : Entries) :
    entries.put (.str name) value = entries.set name value := by
  induction entries with
  | nil => rfl
  | cons head tail ih =>
    obtain ⟨key, old⟩ := head
    simp [put, set, same_str, ih]

theorem get?_put_of_ne {key : Scalar} (differ : key ≠ .str name) (value : Value) (entries : Entries) :
    (entries.put key value).get? name = entries.get? name := by
  induction entries with
  | nil => simp [put, get?, differ]
  | cons head tail ih =>
    obtain ⟨old, oldValue⟩ := head
    by_cases found : old = .str name
    · have apart : (str name).same key = false := by
        rw [str_same]
        exact decide_eq_false (Ne.symm differ)
      simp [put, apart, get?, found]
    · by_cases same : old.same key
      · simp [put, same, get?, found]
      · simp [put, same, get?, found, ih]

/-! ## Many entries put one after another -/

/-- Entries without the key leave its look-up alone. -/
theorem get?_foldl_put_of_notMem {name : String} :
    ∀ {added : Entries} (start : Entries), str name ∉ added.keys →
      get? name (added.foldl (fun collected entry => put entry.1 entry.2 collected) start) =
        start.get? name
  | [], _, _ => rfl
  | (key, value) :: rest, start, absent => by
      simp only [keys, map_cons, mem_cons, not_or] at absent
      rw [foldl_cons, get?_foldl_put_of_notMem _ absent.2,
        get?_put_of_ne (Ne.symm absent.1)]

/-- Of entries without a repeated key, the look-up finds the one put, else what was there. -/
theorem get?_foldl_put {name : String} :
    ∀ {added : Entries} (start : Entries), added.keys.Nodup →
      get? name (added.foldl (fun collected entry => put entry.1 entry.2 collected) start) =
        (added.get? name).or (start.get? name)
  | [], _, _ => rfl
  | (key, value) :: rest, start, distinct => by
      have parted := nodup_cons.mp distinct
      by_cases same : key = .str name
      · subst same
        rw [foldl_cons, get?_foldl_put_of_notMem _ parted.1, put_str, get?_set_self]
        simp [get?]
      · rw [foldl_cons, get?_foldl_put _ parted.2, get?_put_of_ne same]
        simp [get?, same]

/-! ## Maps without a repeated key -/

theorem nodup_keys_filter {keep : Scalar × Value → Bool} {entries : Entries}
    (distinct : entries.keys.Nodup) : (keys (entries.filter keep)).Nodup :=
  distinct.sublist (filter_sublist.map _)

theorem get?_eq_some_iff_mem {entries : Entries} (distinct : entries.keys.Nodup) {value : Value} :
    entries.get? name = some value ↔ (str name, value) ∈ entries := by
  constructor
  · exact mem_of_get?
  · intro member
    induction entries with
    | nil => cases member
    | cons head tail ih =>
      obtain ⟨key, old⟩ := head
      have parted := nodup_cons.mp distinct
      rcases mem_cons.mp member with here | later
      · obtain ⟨rfl, rfl⟩ := Prod.mk.inj here
        simp [get?]
      · have elsewhere : key ≠ .str name := by
          intro same
          subst same
          exact parted.1 (mem_map.mpr ⟨_, later, rfl⟩)
        simp only [get?, elsewhere, if_false]
        exact ih parted.2 later

/-- A look-up does not see the order of the entries. -/
theorem get?_perm {first second : Entries} (same : first.Perm second)
    (distinct : first.keys.Nodup) (name : String) : first.get? name = second.get? name := by
  have distinct' : second.keys.Nodup := (same.map _).nodup_iff.mp distinct
  apply Option.ext
  intro value
  rw [get?_eq_some_iff_mem distinct, get?_eq_some_iff_mem distinct', same.mem_iff]

end Entries

end Bindery

import Bindery.Dialect.Schema

/-!
# Walks through schemas

A walk applies a rule to every schema object of a schema, the inner ones first.
What it makes of the value under a keyword is one of a few things, and what is
said of every schema that is walked can be assumed of the schemas inside.
-/

namespace Bindery

open List Value

/-- What holds of a value if it holds of all smaller ones holds of every value. -/
theorem Value.induction {motive : Value → Prop}
    (step : ∀ value, (∀ part, part.weight < value.weight → motive part) → motive value)
    (value : Value) : motive value :=
  (measure weight).wf.induction value step

namespace Dialect

variable (rule : Entries → Entries)

theorem walkEntries_eq_map (entries : Entries) :
    walkEntries rule entries =
      entries.map fun entry => (entry.1, walkPart rule entry.1 entry.2) := by
  induction entries with
  | nil => rfl
  | cons entry rest ih => rw [walkEntries, ih, map_cons]

theorem walkNamed_eq_map (entries : Entries) :
    walkNamed rule entries = entries.map fun entry => (entry.1, walk rule entry.2) := by
  induction entries with
  | nil => rfl
  | cons entry rest ih => rw [walkNamed, ih, map_cons]

theorem walkList_eq_map (items : List Value) : walkList rule items = items.map (walk rule) := by
  induction items with
  | nil => rfl
  | cons item rest ih => rw [walkList, ih, map_cons]

/-- What stands under a keyword is kept, or it is walked: as a schema, as a map of schemas or as a
list of schemas.  What holds of smaller values holds of these schemas. -/
theorem walkPart_cases {motive : Value → Prop} {entries : Entries} {key : Scalar} {value : Value}
    (member : (key, value) ∈ entries)
    (inner : ∀ part : Value, part.weight < (Value.map entries).weight → motive part) :
    walkPart rule key value = value ∨
      ∃ names ∈ [namedSchemaKeys, singleSchemaKeys, listedSchemaKeys], key.isOneOf names = true ∧
        (walkPart rule key value = walk rule value ∧ motive value ∨
        (∃ named, value = .map named ∧ (∀ entry ∈ named, motive entry.2) ∧
          walkPart rule key value = .map (named.map fun entry => (entry.1, walk rule entry.2))) ∨
        ∃ items, value = .list items ∧ (∀ item ∈ items, motive item) ∧
          walkPart rule key value = .list (items.map (walk rule))) := by
  have smaller := weight_lt_of_mem_entries member
  cases value with
  | scalar _ => exact .inl rfl
  | list items =>
    rw [walkPart, walkList_eq_map]
    split
    next listed =>
      refine .inr ⟨_, by simp, listed, .inr (.inr ⟨items, rfl, fun item inside => ?_, rfl⟩)⟩
      exact inner item (Nat.lt_trans (weight_lt_of_mem inside) smaller)
    next => exact .inl rfl
  | map inside =>
    rw [walkPart, walkNamed_eq_map]
    split
    next named =>
      refine .inr ⟨_, by simp, named, .inr (.inl ⟨inside, rfl, fun entry listed => ?_, rfl⟩)⟩
      exact inner entry.2 (Nat.lt_trans (weight_lt_of_mem_entries listed) smaller)
    next =>
      split
      next single => exact .inr ⟨_, by simp, single, .inl ⟨rfl, inner _ smaller⟩⟩
      next => exact .inl rfl

end Dialect

end Bindery

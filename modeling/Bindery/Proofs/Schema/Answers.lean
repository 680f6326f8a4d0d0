import Bindery.Proofs.Schema.Outline

/-!
# The answers in a schema

What the surroundings answer while a schema is read is exactly what the schema
mentions.  The reader is compared with itself in surroundings that note down every
call with its answer: it takes the same course, and every call is for a reference
written in the schema.
-/

namespace Bindery

open List

variable {State : Type}

/-- Surroundings that answer as others do, and note down every text with what it stands for. -/
def Surroundings.noting (surroundings : Surroundings State) :
    Surroundings (State × List (String × Target)) where
  resolve text := ExceptT.mk fun (state, calls) =>
    let (result, later) := (surroundings.resolve text).start state
    (result, later, calls ++ result.toOption.toList.map fun target => (text, target))
  report diagnostic := ExceptT.mk fun (state, calls) =>
    let (result, later) := (surroundings.report diagnostic).start state
    (result, later, calls)

namespace Schema

/-- Compares a computation in surroundings that note down their calls with the same one in the
surroundings themselves. -/
def noting (surroundings : Surroundings State) (texts : List String) :
    Comparison (State × List (String × Target)) State where
  first := surroundings.noting
  second := surroundings
  texts
  placed := True
  holds here there fits := ∀ state value' later calls, there.start state = (.ok value', later) →
    ∃ value more, here.start (state, calls) = (.ok value, later, calls ++ more) ∧
      (∀ call ∈ more, call.1 ∈ texts) ∧ fits (more.map fun call => (call.2, call.2)) value value'
  pure {_ value _ _} fit := by
    rintro state _ _ calls ⟨⟩
    exact ⟨value, [], by rw [append_nil]; rfl, forall_mem_nil _, fit⟩
  throw _ := nofun
  bind first rest := by
    intro state result' last calls ran
    obtain ⟨value', later, ran', onward⟩ := Run.start_bind_ok ran
    obtain ⟨value, more, noted, written, fit⟩ := first state value' later calls ran'
    obtain ⟨result, further, noted', written', fits⟩ :=
      rest _ value value' fit later result' last (calls ++ more) onward
    refine ⟨result, more ++ further, ?_, forall_mem_append.mpr ⟨written, written'⟩, ?_⟩
    · rw [Run.start_bind, noted, ← append_assoc]
      exact noted'
    · rw [map_append]
      exact fits
  resolve text written state target later calls ran := by
    refine ⟨target, [(text, target)], ?_, forall_mem_singleton.mpr written, rfl⟩
    simp only [Surroundings.noting, Run.start, ExceptT.run, ExceptT.mk, StateT.run] at ran ⊢
    rw [ran]
    rfl
  report diagnostic _ _ same state _ later calls ran := by
    obtain rfl := same trivial
    refine ⟨(), [], ?_, forall_mem_nil _, rfl⟩
    simp only [Surroundings.noting, Run.start, ExceptT.run, ExceptT.mk, StateT.run] at ran ⊢
    rw [ran, append_nil]

/-- Whatever the surroundings answer, a schema that is read mentions the answers and nothing else,
and only references written in it are asked for: texts behind a reference key, and targets of
discriminators.  Objects of JSON have no two keys of one text, so the tags in them are apart. -/
theorem targets_eq_answers (surroundings : Surroundings State) {schema : Value}
    (apart : schema.TagsApart) (place : String) {state later : State} {node : Node}
    (ran : (read surroundings schema place).start state = (.ok node, later)) :
    ∃ calls, (read surroundings.noting schema place).start (state, []) = (.ok node, later, calls) ∧
      (∀ key, key ∈ node.targets ↔ ∃ call ∈ calls, call.2.key = key) ∧
      ∀ call ∈ calls, call.1 ∈ asked .plain schema := by
  have alike := readAlike (noting surroundings (asked .plain schema)) (promised schema) schema place
    place ⟨Subset.refl _, id, id, fun _ => rfl⟩
  obtain ⟨noted, calls, ran', written, reading, -⟩ := alike state node later [] ran
  have same : noted = node := reading.same (forall_mem_map.mpr fun _ _ => rfl)
  subst same
  refine ⟨calls, ran', fun key => ?_, written⟩
  rw [Node.targets, mem_eraseDups]
  constructor
  · intro mentioned
    obtain ⟨answer, given, told⟩ := reading.fits.mentioned key mentioned
    obtain ⟨call, made, rfl⟩ := mem_map.mp given
    exact ⟨call, made, told⟩
  · rintro ⟨call, made, rfl⟩
    exact reading.mentions_of_answer apart (mem_map_of_mem made)

/-- A union of one reference with a mapping to it and to the name of a component. -/
def taggedUnion : Value :=
  .map [(.str "oneOf", .list [.map [(.str "$ref", .str "#/a")]]),
    (.str "discriminator", .map [(.str "propertyName", .str "kind"),
      (.str "mapping", .map [(.str "x", .str "Cat"), (.str "y", .str "#/a")])])]

theorem targets_eq_answers_of_union : taggedUnion.TagsApart ∧
    ∃ node later calls,
      (read recorder.noting taggedUnion "").start ([], []) = (.ok node, later, calls) ∧
      node.targets = ["#/a", "#/components/schemas/Cat"] ∧
      (∀ key, key ∈ node.targets ↔ ∃ call ∈ calls, call.2.key = key) ∧
      ∀ call ∈ calls, call.1 ∈ asked .plain taggedUnion := by
  have apart : taggedUnion.TagsApart := by
    intro entries inner mapping inside stored mapped
    simp [taggedUnion] at inside
    rcases inside with rfl | rfl | rfl | rfl
    · obtain rfl : inner = _ := by simpa using stored
      obtain rfl : mapping = _ := by simpa using mapped
      decide
    all_goals simp at stored
  have ran := Run.start_returned (read recorder taggedUnion "") [] (by decide +kernel)
  obtain ⟨calls, noted, told, written⟩ := targets_eq_answers recorder apart "" ran
  exact ⟨apart, _, _, calls, noted, by decide +kernel, told, written⟩

end Schema

end Bindery

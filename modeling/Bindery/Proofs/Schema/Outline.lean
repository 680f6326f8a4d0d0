import Bindery.Proofs.Schema.Reading

/-!
# The outline of a schema

What a reference stands for decides the targets of the node that a schema is
read as, and nothing else.  The outline of a schema is the node it is read as if
every reference stood for its own text, together with the texts that are asked
for.  In any surroundings the schema is then read as its outline with the
targets replaced, and exactly the texts of the outline are asked for.
-/

namespace Bindery

open List

namespace Schema

/-! ## Two computations in step -/

variable {State Other α β : Type} {related : Answers → State → Other → Prop}

/-- Whenever the first of two computations returns a value, the second one does: from related
states they come to related states, with values that fit the answers in between.  The first one
never ends with a failed resolution. -/
structure Tracks (related : Answers → State → Other → Prop) (first : Run State α)
    (second : Run Other α) (fits : Answers → α → α → Prop) : Prop where
  returns : ∀ {before state other value later}, related before state other →
    first.start state = (.ok value, later) →
      ∃ answers value' later', second.start other = (.ok value', later') ∧
        related (before ++ answers) later later' ∧ fits answers value value'
  resolves : ∀ {before state other}, related before state other →
    NoResolutionFault (first.start state).1

theorem Tracks.bind {first : Run State α} {second : Run Other α} {next : α → Run State β}
    {next' : α → Run Other β} {middle : Answers → α → α → Prop} {fits : Answers → β → β → Prop}
    (steps : Tracks related first second middle)
    (rest : ∀ answers value value', middle answers value value' →
      Tracks related (next value) (next' value') fun more => fits (answers ++ more)) :
    Tracks related (first >>= next) (second >>= next') fits where
  returns := by
    intro before state other value later start ran
    obtain ⟨middle, between, ran, onward⟩ := Run.start_bind_ok ran
    obtain ⟨answers, middle', between', ran', related', holds⟩ := steps.returns start ran
    obtain ⟨more, value', later', onward', after, ended⟩ :=
      (rest answers middle middle' holds).returns related' onward
    refine ⟨answers ++ more, value', later', ?_, by rwa [← append_assoc], ended⟩
    rw [Run.start_bind, ran']
    exact onward'
  resolves := by
    intro before state other start
    rw [Run.start_bind]
    rcases ran : first.start state with ⟨fault | middle, between⟩
    · have clear := steps.resolves start
      rw [ran] at clear
      rintro cause ⟨⟩
      exact clear cause rfl
    · obtain ⟨answers, middle', between', -, related', holds⟩ := steps.returns start ran
      exact (rest answers middle middle' holds).resolves related'

/-- Two surroundings in step: whatever the first one answers, the second one has an answer for. -/
structure InStep (related : Answers → State → Other → Prop) (first : Surroundings State)
    (second : Surroundings Other) : Prop where
  resolve : ∀ text, Tracks related (first.resolve text) (second.resolve text)
    fun answers target target' => answers = [(target, target')]
  report : ∀ diagnostic diagnostic', Tracks related (first.report diagnostic)
    (second.report diagnostic') fun answers _ _ => answers = []

section Reader

variable {first : Surroundings State} {second : Surroundings Other}

/-- Compares two computations in step. -/
def tracking (inStep : InStep related first second) (texts : List String) :
    Comparison State Other where
  first
  second
  texts
  placed := False
  holds := Tracks related
  pure {_ _ value' _} fit := by
    refine ⟨?_, fun _ => nofun⟩
    rintro before state other _ _ start ⟨⟩
    exact ⟨[], value', other, rfl, by rwa [append_nil], fit⟩
  throw clear := ⟨fun _ => nofun, fun _ cause same => clear cause (Except.error.inj same)⟩
  bind := Tracks.bind
  resolve text _ := inStep.resolve text
  report diagnostic diagnostic' _ _ := inStep.report diagnostic diagnostic'

/-- In surroundings in step a schema is read in step. -/
theorem tracks_read (inStep : InStep related first second) (schema : Value)
    (place place' : String) : Tracks related (read first schema place) (read second schema place')
      fun answers node node' => OfNode (promised schema) answers node node' ∧
        (node.note = noteOf schema ∨ IsMarkedReference schema) :=
  readAlike (tracking inStep (asked .plain schema)) (promised schema) schema place place'
    ⟨Subset.refl _, id, id, nofun⟩

end Reader

/-! ## Outlines -/

/-- Surroundings in which every reference stands for its own text and is noted down. -/
def recorder : Surroundings (List String) where
  resolve text := do
    modify (· ++ [text])
    return { key := text, forward := false }
  report _ := return ()

/-- A schema as it is read without its surroundings, with the references that are asked for. -/
def outline (schema : Value) : Except Fault Node × List String :=
  (read recorder schema "").start []

/-- The texts that were asked for are the answers. -/
def Lists (answers : Answers) (asked _ : List String) : Prop :=
  asked = answers.map (·.1.key)

theorem inStep_lists : InStep Lists recorder recorder where
  resolve text := by
    refine ⟨?_, fun _ => nofun⟩
    rintro before _ other _ _ rfl ⟨⟩
    exact ⟨_, _, _, rfl, by simp [Lists], rfl⟩
  report _ _ := by
    refine ⟨?_, fun _ => nofun⟩
    rintro before _ other _ _ rfl ⟨⟩
    exact ⟨[], (), other, rfl, by rw [append_nil, Lists], rfl⟩

/-- What is known of an outline; the answers are what was asked for. -/
theorem outline_read {schema : Value} {outlined : Node} {asked : List String}
    (outline : outline schema = (.ok outlined, asked)) :
    ∃ answers node, asked = answers.map (·.1.key) ∧
      OfNode (promised schema) answers outlined node := by
  have start : Lists [] [] [] := rfl
  obtain ⟨answers, node, _, -, listed, read, -⟩ :=
    (tracks_read inStep_lists schema "" "").returns start outline
  exact ⟨answers, node, listed, read⟩

section Reader

variable {State : Type} {holds : State → Prop} {fact : Target → String → Prop}
  {surroundings : Surroundings State}

/-- A property of states holds, and another one of the answers to texts. -/
def Upholds (holds : State → Prop) (fact : Target → String → Prop) (answers : Answers)
    (state : State) (_ : List String) : Prop :=
  holds state ∧ ∀ answer ∈ answers, fact answer.1 answer.2.key

variable
  (resolve : ∀ text state, holds state →
    NoResolutionFault ((surroundings.resolve text).start state).1 ∧
      ∀ target later, (surroundings.resolve text).start state = (.ok target, later) →
        holds later ∧ fact target text)
  (report : ∀ diagnostic state, holds state → ∃ later,
    (surroundings.report diagnostic).start state = (.ok (), later) ∧ holds later)

include resolve report

theorem inStep_upholds : InStep (Upholds holds fact) surroundings recorder where
  resolve text := by
    constructor
    · rintro before state asked target later ⟨start, facts⟩ ran
      obtain ⟨after, told⟩ := (resolve text state start).2 target later ran
      refine ⟨_, { key := text, forward := false }, asked ++ [text], rfl, ⟨after, ?_⟩, rfl⟩
      exact forall_mem_append.mpr ⟨facts, forall_mem_singleton.mpr told⟩
    · exact fun start => (resolve text _ start.1).1
  report diagnostic _ := by
    constructor
    · rintro before state asked _ later ⟨start, facts⟩ ran
      obtain ⟨last, told, after⟩ := report diagnostic state start
      cases told.symm.trans ran
      exact ⟨[], (), asked, rfl, ⟨after, by rwa [append_nil]⟩, rfl⟩
    · intro before state asked start
      obtain ⟨last, told, -⟩ := report diagnostic state start.1
      rw [told]
      nofun

/-- If every answer keeps a property of states and has one itself, a schema is read as its outline
with such answers to its texts. -/
theorem read_outline (schema : Value) (place : String) {state : State} (before : holds state) :
    NoResolutionFault ((read surroundings schema place).start state).1 ∧
      ∀ node later, (read surroundings schema place).start state = (.ok node, later) →
        holds later ∧ ∃ outlined asked answers, outline schema = (.ok outlined, asked) ∧
          OfNode (promised schema) answers node outlined ∧
          ∀ answer ∈ answers, fact answer.1 answer.2.key := by
  have tracks := tracks_read (inStep_upholds resolve report) schema place ""
  have start : Upholds holds fact [] state [] := ⟨before, forall_mem_nil _⟩
  refine ⟨tracks.resolves start, fun node later ran => ?_⟩
  obtain ⟨answers, outlined, asked, outline, ⟨after, facts⟩, read, -⟩ := tracks.returns start ran
  exact ⟨after, outlined, asked, answers, outline, read, facts⟩

end Reader

end Schema

end Bindery

import Bindery.Proofs.Schema.Outline

/-!
# Compositions

A schema is a composition by the first of the keywords `allOf`, `anyOf` and
`oneOf` that lists members.  Each of these members is read, in the run that reads
the schema, and stands in the node as a member of a composition of that mode: the
node itself or, if the schema has keywords of an object too, a part of it.  The
members under a later keyword have no effect.
-/

namespace Bindery

open List

namespace Schema

variable {State : Type} {entries : Entries} {mode : Composition} {items : List Value}

/-! ## The first composition -/

/-- The compositions that come before one of a mode. -/
def earlierModes : Composition → List Composition
  | .allOf => []
  | .anyOf => [.allOf]
  | .oneOf => [.allOf, .anyOf]

theorem composition?_of_first {schema : Value} (listed : membersOf schema mode = some items)
    (first : ∀ earlier ∈ earlierModes mode, membersOf schema earlier = none) :
    composition? schema = some (mode, items) := by
  cases mode <;>
    simp_all [earlierModes, composition?]

/-- The composition of a schema does not depend on what comes later. -/
theorem composition?_of_later {first second : Value}
    (later : ∃ earlier ∈ earlierModes mode, membersOf first earlier ≠ none)
    (same : ∀ keyword ≠ mode.text, first.get? keyword = second.get? keyword) :
    (composition? first).isSome = true ∧ composition? first = composition? second := by
  obtain ⟨earlier, before, found⟩ := later
  have agree (other : Composition) (different : other.text ≠ mode.text) :
      membersOf first other = membersOf second other := by
    rw [membersOf, membersOf, same _ different]
  obtain ⟨items, found⟩ := Option.ne_none_iff_exists'.mp found
  cases mode with
  | allOf => cases before
  | anyOf =>
    obtain rfl := mem_singleton.mp before
    simp [composition?, ← agree .allOf (by decide), found]
  | oneOf =>
    simp only [composition?, ← agree .allOf (by decide), ← agree .anyOf (by decide),
      findSome?_cons]
    rcases mem_pair.mp before with rfl | rfl
    · simp [found]
    · cases membersOf first .allOf <;> simp [found]

/-! ## Members -/

/-- A node is a composition of a mode with a part, or a conjunction one of whose members is. -/
inductive Holds (mode : Composition) (part : Node) : Node → Prop
  | member {note : Note} {parts : List Node} {discriminator : Option Discriminator}
      (here : part ∈ parts) : Holds mode part (.composition note mode parts discriminator)
  | inner {outer note : Note} {parts members : List Node} {discriminator : Option Discriminator}
      (union : mode ≠ .allOf) (inside : .composition note mode members discriminator ∈ parts)
      (here : part ∈ members) : Holds mode part (.composition outer .allOf parts none)

/-- A node is what a schema is read as, at some place. -/
def IsReading (surroundings : Surroundings State) (schema : Value) (node : Node) : Prop :=
  ∃ place before after, (read surroundings schema place).start before = (.ok node, after)

theorem readMembers_isReading (surroundings : Surroundings State) (items : List Value)
    (place : String) (index : Nat) :
    Run.Returns (readMembers surroundings items place index)
      (Forall₂ (IsReading surroundings) items) := by
  induction items generalizing index with
  | nil =>
    rw [readMembers]
    exact .pure .nil
  | cons schema rest ih =>
    rw [readMembers]
    have one (place : String) :
        Run.Returns (read surroundings schema place) (IsReading surroundings schema) :=
      fun before node after ran => ⟨place, before, after, ran⟩
    refine .bind (one _) fun node first => ?_
    exact .bind (ih _) fun nodes others => .pure (.cons first others)

theorem readUnion_holds (surroundings : Surroundings State) (schema : Value) (place : String)
    (parts : List Node) (union : mode ≠ .allOf) :
    Run.Returns (readUnion surroundings schema place mode parts) fun node =>
      ∀ part ∈ parts, Holds mode part node := by
  refine .after _ fun discriminator => ?_
  split
  · exact .after _ fun own => .pure fun part here =>
      .inner union (mem_cons_of_mem _ mem_cons_self) here
  · exact .pure fun part here => .member here

theorem readComposed_holds (surroundings : Surroundings State) (schema : Value) (place : String)
    (parts : List Node) :
    Run.Returns (readComposed surroundings schema place mode parts) fun node =>
      ∀ part ∈ parts, Holds mode part node := by
  cases mode with
  | allOf =>
    rw [readComposed]
    split
    · exact .after _ fun own => .pure fun part here => .member (mem_append_left _ here)
    · exact .pure fun part here => .member here
  | anyOf => exact readUnion_holds surroundings schema place parts (by decide)
  | oneOf => exact readUnion_holds surroundings schema place parts (by decide)

/-- The members under the first keyword of a composition are read in turn, after the reports and
before the rest of the schema, and stand in the node; those under a later keyword have no effect. -/
theorem composition_read_by_first (plain : IsPlain entries)
    (listed : membersOf (.map entries) mode = some items) :
    ((∀ earlier ∈ earlierModes mode, membersOf (.map entries) earlier = none) →
      ∀ (State : Type) (surroundings : Surroundings State) (place : String) (state later : State)
        (node : Node), (read surroundings (.map entries) place).start state = (.ok node, later) →
        ∃ before parts after,
          ((unsupported (.map entries) place).forM surroundings.report).start state =
            (.ok (), before) ∧
          (readMembers surroundings items (place ++ "/" ++ mode.text ++ "/") 0).start before =
            (.ok parts, after) ∧
          (readComposed surroundings (.map entries) place mode parts).start after =
            (.ok node, later) ∧
          List.Forall₂ (IsReading surroundings) items parts ∧
          ∀ part ∈ parts, Holds mode part node) ∧
    ((∃ earlier ∈ earlierModes mode, membersOf (.map entries) earlier ≠ none) →
      ∀ other : Entries, (∀ keyword ≠ mode.text, entries.get? keyword = other.get? keyword) →
        ∀ (State : Type) (surroundings : Surroundings State) (place : String),
          read surroundings (.map entries) place = read surroundings (.map other) place) := by
  constructor
  · intro first State surroundings place state later node ran
    rw [read_plain surroundings plain, readShape, composition?_of_first listed first] at ran
    obtain ⟨_, before, told, ran⟩ := Run.start_bind_ok ran
    obtain ⟨parts, after, members, ran⟩ := Run.start_bind_ok ran
    exact ⟨before, parts, after, told, members, ran,
      readMembers_isReading surroundings items _ 0 _ _ _ members,
      readComposed_holds surroundings _ place parts _ _ _ ran⟩
  · intro later other same State surroundings place
    have agree {keywords : List String} (kept : ∀ keyword ∈ keywords, keyword ≠ mode.text) :
        Agree keywords (.map entries) (.map other) :=
      fun keyword member => same keyword (kept keyword member)
    have plain' : IsPlain other := fun keyword member =>
      (agree (by cases mode <;> decide) keyword member).symm.trans (plain keyword member)
    have reports : unsupported (.map entries) place = unsupported (.map other) place :=
      unsupported_congr (agree (by cases mode <;> decide)) place
    obtain ⟨composition, composed⟩ :=
      @composition?_of_later mode (.map entries) (.map other) later same
    rw [read_plain surroundings plain, read_plain surroundings plain', reports]
    exact congrArg _ (funext fun _ => readShape_congr_of_composition? surroundings
      (agree (by cases mode <;> decide)) composed composition place)

theorem composition_read_by_first_of_two :
    outline (.map [(.str "anyOf", .list []), (.str "oneOf", .list [.map []])]) =
      outline (.map [(.str "anyOf", .list [])]) := by
  refine congrArg (Run.start · []) ((composition_read_by_first (by decide)
    (rfl : membersOf _ .oneOf = some [.map []])).2 ⟨.anyOf, by decide, by decide⟩ _ ?_ _ recorder "")
  intro keyword other
  have absent : Scalar.str "oneOf" ≠ .str keyword := by
    simpa [Composition.text] using Ne.symm other
  simp only [Entries.get?, if_neg absent]

/-- The members under `oneOf` are lost beside those under `anyOf`: the reference among them is not
asked for. -/
theorem oneOf_lost_beside_anyOf :
    outline (.map [(.str "anyOf", .list [.map [(.str "type", .str "string")]]),
        (.str "oneOf", .list [.map [(.str "$ref", .str "#/x")]])]) =
      (.ok (.composition {} .anyOf [.primitive {} .string none {}] none), []) := by
  decide +kernel

end Schema

end Bindery

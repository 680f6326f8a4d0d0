import Bindery.Code.Shape
import Mathlib.Data.Finset.Card

/-!
# Looking through names

References of a schema lead to named types, which may be aliases or compositions of
others and may lead back.  What is looked up behind them is described without a
bound on the search: the shape of a schema is where its chain of aliases ends, and
its literal tag is the first one that a depth-first search meets in the unfolding of
the schema, in which each name is followed at most once on a path.

The bound on the number of names that are followed never cuts a search short: a path
follows different names, and there are no more of them than types.
-/

namespace Bindery

open List

namespace NamedNodes

variable {types : NamedNodes} {seen : List String} {target : String} {next : Node} {fuel : Nat}

/-- What stands behind a name that has not been followed yet. -/
def behind? (types : NamedNodes) (seen : List String) (target : String) : Option Node :=
  if target ∈ seen then none else types.lookup target

/-- A bound that leaves room for all names that have not been followed. -/
def Covers (types : NamedNodes) (fuel : Nat) (seen : List String) : Prop :=
  ((types.map Prod.fst).toFinset \ seen.toFinset).card ≤ fuel

theorem covers_length (types : NamedNodes) : types.Covers types.length [] := by
  simpa [Covers] using toFinset_card_le (types.map Prod.fst)

theorem mem_of_behind? (leads : types.behind? seen target = some next) :
    target ∈ (types.map Prod.fst).toFinset \ seen.toFinset := by
  rw [behind?] at leads
  split at leads
  next => cases leads
  next new =>
    obtain ⟨before, after, rfl, -⟩ := lookup_eq_some_iff.mp leads
    simp [new]

theorem Covers.behind?_eq_none (covers : types.Covers 0 seen) (target : String) :
    types.behind? seen target = none := by
  rw [Covers, Nat.le_zero, Finset.card_eq_zero] at covers
  refine Option.eq_none_iff_forall_ne_some.mpr fun next leads => ?_
  have left := mem_of_behind? leads
  rw [covers] at left
  exact absurd left (Finset.notMem_empty target)

theorem Covers.follow (covers : types.Covers (fuel + 1) seen)
    (leads : types.behind? seen target = some next) : types.Covers fuel (target :: seen) := by
  have erased : (types.map Prod.fst).toFinset \ (target :: seen).toFinset =
      ((types.map Prod.fst).toFinset \ seen.toFinset).erase target := by
    rw [toFinset_cons, Finset.sdiff_insert]
  rw [Covers, erased, Finset.card_erase_of_mem (mem_of_behind? leads)]
  exact Nat.sub_le_of_le_add covers

end NamedNodes

namespace Node

open NamedNodes

variable {types : NamedNodes} {seen : List String} {fuel : Nat}

/-! ## Chains of aliases -/

/-- A chain of aliases ends at a schema that is no reference, or whose name is unknown or was
followed before. -/
inductive LeadsTo (types : NamedNodes) : List String → Node → Node → Prop
  | stay {seen : List String} {node : Node}
      (ends : ∀ target, node.target? = some target → types.behind? seen target = none) :
      LeadsTo types seen node node
  | follow {seen : List String} {note : Note} {target : String} {forward : Bool}
      {next last : Node} (leads : types.behind? seen target = some next)
      (onward : LeadsTo types (target :: seen) next last) :
      LeadsTo types seen (.reference note target forward) last

theorem lookThrough_reference (note : Note) (target : String) (forward : Bool) :
    lookThrough types (fuel + 1) seen (.reference note target forward) =
      (types.behind? seen target).elim (.reference note target forward)
        (lookThrough types fuel (target :: seen)) := by
  rw [lookThrough, behind?]
  by_cases passed : target ∈ seen
  · simp [passed]
  · cases types.lookup target <;> simp [passed]

theorem leadsTo_lookThrough (covers : types.Covers fuel seen) (node : Node) :
    LeadsTo types seen node (node.lookThrough types fuel seen) := by
  induction fuel generalizing seen node with
  | zero => exact .stay fun target _ => covers.behind?_eq_none target
  | succ fuel ih =>
    cases node with
    | reference note target forward =>
      rw [lookThrough_reference]
      rcases leads : types.behind? seen target with _ | next
      · refine .stay ?_
        rintro _ ⟨⟩
        exact leads
      · exact .follow leads (ih (covers.follow leads) next)
    | _ => exact .stay (by rintro _ ⟨⟩)

/-! ## Searching the unfolding -/

/-- A schema to be searched, with the names that were followed to reach it. -/
abbrev Item := List String × Node

/-- What a schema unfolds to: the members of `allOf`, and what stands behind a reference. -/
def unfolded (types : NamedNodes) : Item → List Item
  | (seen, .composition _ .allOf members _) => members.map (seen, ·)
  | (seen, .reference _ target _) =>
    ((types.behind? seen target).map fun next => (target :: seen, next)).toList
  | _ => []

def ownProperties : Node → List (List (String × Node))
  | .object _ properties _ _ _ _ => [properties]
  | _ => []

/-- A depth-first search, from left to right, and the properties of the objects it meets. -/
inductive Visits (types : NamedNodes) : List Item → List (List (String × Node)) → Prop
  | done : Visits types [] []
  | step {item : Item} {rest : List Item} {objects : List (List (String × Node))}
      (onward : Visits types (unfolded types item ++ rest) objects) :
      Visits types (item :: rest) (ownProperties item.2 ++ objects)

variable {property : String}

/-- A search of some schemas with an answer: what it meets in front of all that is met later, with
the answer as the first single value of a property. -/
def Explores (types : NamedNodes) (property : String) (items : List Item)
    (answer : Option Value) : Prop :=
  ∃ objects, (∀ rest later, Visits types rest later →
      Visits types (items ++ rest) (objects ++ later)) ∧
    answer = objects.findSome? fun properties => (properties.lookup property).bind onlyValue?

theorem explores_nil : Explores types property [] none :=
  ⟨[], fun _ _ later => later, rfl⟩

theorem Explores.append {first second : List Item} {answer answer' : Option Value}
    (explores : Explores types property first answer)
    (explores' : Explores types property second answer') :
    Explores types property (first ++ second) (answer.or answer') := by
  obtain ⟨objects, visits, rfl⟩ := explores
  obtain ⟨objects', visits', rfl⟩ := explores'
  refine ⟨objects ++ objects', fun rest later onward => ?_, (findSome?_append ..).symm⟩
  rw [append_assoc, append_assoc]
  exact visits _ _ (visits' rest later onward)

/-- A schema that is no object is explored by what it unfolds to. -/
theorem Explores.unfold {item : Item} {answer : Option Value} (bare : ownProperties item.2 = [])
    (explores : Explores types property (unfolded types item) answer) :
    Explores types property [item] answer := by
  obtain ⟨objects, visits, rfl⟩ := explores
  refine ⟨objects, fun rest later onward => ?_, rfl⟩
  have met : Visits types (item :: rest) (ownProperties item.2 ++ (objects ++ later)) :=
    .step (visits rest later onward)
  rwa [bare] at met

mutual

theorem explores_tagIn {follow : String → Option Value}
    (behind : ∀ note target forward,
      Explores types property [(seen, .reference note target forward)] (follow target)) :
    (node : Node) → Explores types property [(seen, node)] (tagIn follow property node)
  | .reference note target forward => behind note target forward
  | .object note properties required extras declared title =>
    ⟨[properties], fun _ _ onward => .step onward, by simp [tagIn]⟩
  | .composition note .allOf members discriminator => .unfold rfl (explores_tagInList behind members)
  | .composition _ .anyOf _ _ => .unfold rfl explores_nil
  | .composition _ .oneOf _ _ => .unfold rfl explores_nil
  | .primitive .. => .unfold rfl explores_nil
  | .null _ => .unfold rfl explores_nil
  | .any _ => .unfold rfl explores_nil
  | .array .. => .unfold rfl explores_nil
  | .enumeration .. => .unfold rfl explores_nil
  | .typeArray .. => .unfold rfl explores_nil

theorem explores_tagInList {follow : String → Option Value}
    (behind : ∀ note target forward,
      Explores types property [(seen, .reference note target forward)] (follow target)) :
    (members : List Node) →
      Explores types property (members.map (seen, ·)) (tagInList follow property members)
  | [] => explores_nil
  | node :: rest => (explores_tagIn behind node).append (explores_tagInList behind rest)

end

theorem tagBehind_succ (target : String) : tagBehind types property (fuel + 1) seen target =
    (types.behind? seen target).bind
      (tagIn (tagBehind types property fuel (target :: seen)) property) := by
  rw [tagBehind, behind?]
  by_cases passed : target ∈ seen <;> simp [passed]

theorem explores_tagBehind (covers : types.Covers fuel seen) (note : Note) (target : String)
    (forward : Bool) :
    Explores types property [(seen, .reference note target forward)]
      (tagBehind types property fuel seen target) := by
  induction fuel generalizing seen note target forward with
  | zero =>
    refine .unfold rfl ?_
    rw [unfolded, covers.behind?_eq_none]
    exact explores_nil
  | succ fuel ih =>
    refine .unfold rfl ?_
    rw [tagBehind_succ, unfolded]
    rcases leads : types.behind? seen target with _ | next
    · exact explores_nil
    · exact explores_tagIn (ih (covers.follow leads)) next

/--
Looking through names ends and finds what it is meant to.  The shape of a schema is the
end of its chain of aliases: the first schema that is no reference, or a reference
whose name is unknown or was followed before.  The search of its unfolding ends, and
the literal tag is the first single value of the property among the objects that are
met.
-/
theorem looks_through_exactly (types : NamedNodes) (property : String) (node : Node) :
    LeadsTo types [] node (node.shape types) ∧
    ∃ objects, Visits types [([], node)] objects ∧
      node.literalTag types property =
        objects.findSome? fun properties => (properties.lookup property).bind onlyValue? := by
  have covers := covers_length types
  obtain ⟨objects, visits, found⟩ := explores_tagIn (explores_tagBehind covers) node
  refine ⟨leadsTo_lookThrough covers node, objects, ?_, found⟩
  simpa using visits [] [] .done

end Node

end Bindery

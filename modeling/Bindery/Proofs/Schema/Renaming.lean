import Bindery.Code.Shape
import Bindery.Proofs.Code.Imports

/-!
# Renamed types

Naming replaces the keys of types by names, in the schemas and among the types.
As long as different keys have different names, the same types are found behind
the same references.  So the literal value that a property has in a schema does
not depend on how its types are named.
-/

namespace Bindery

open List

def NamedNodes.rename (names : List (String × String)) (types : NamedNodes) : NamedNodes :=
  types.map fun type => (targetName names type.1, type.2.rename names)

/-- Keys that hold the keys of types and all that the types mention. -/
def NamedNodes.Within (keys : List String) (types : NamedNodes) : Prop :=
  ∀ type ∈ types, type.1 ∈ keys ∧ type.2.mentions true ⊆ keys

def NamedNodes.keys (types : NamedNodes) : List String :=
  types.flatMap fun type => type.1 :: type.2.mentions true

theorem NamedNodes.within_keys (types : NamedNodes) (more : List String) :
    types.Within (more ++ types.keys) := by
  intro type inside
  have listed : type.1 :: type.2.mentions true ⊆ more ++ types.keys := by
    intro key member
    exact mem_append_right _ (mem_flatMap.mpr ⟨type, inside, member⟩)
  exact ⟨listed mem_cons_self, fun key member => listed (mem_cons_of_mem _ member)⟩

/-- Different keys have different names. -/
def Distinguishes (names : List (String × String)) (keys : List String) : Prop :=
  ∀ first ∈ keys, ∀ second ∈ keys,
    targetName names first = targetName names second → first = second

variable {key : String}

theorem Distinguishes.contains_map {names : List (String × String)} {keys listed : List String}
    (distinguishes : Distinguishes names keys) (inside : listed ⊆ keys) (member : key ∈ keys) :
    (listed.map (targetName names)).contains (targetName names key) = listed.contains key := by
  rw [Bool.eq_iff_iff, contains_iff_mem, contains_iff_mem, mem_map]
  constructor
  · rintro ⟨other, present, same⟩
    rwa [← distinguishes other (inside present) key member same]
  · intro present
    exact ⟨key, present, rfl⟩

namespace Node

variable {names : List (String × String)} {keys : List String} {types : NamedNodes}

theorem lookup_rename (distinguishes : Distinguishes names keys) (within : types.Within keys)
    (member : key ∈ keys) : (NamedNodes.rename names types).lookup (targetName names key) =
      (types.lookup key).map (rename names) := by
  induction types with
  | nil => rfl
  | cons type rest ih =>
    obtain ⟨first, node⟩ := type
    have others := ih fun other inside => within other (mem_cons_of_mem _ inside)
    have listed := (within (first, node) mem_cons_self).1
    rw [NamedNodes.rename, map_cons]
    by_cases same : key = first
    · subst same
      simp
    · have apart : (targetName names key == targetName names first) = false :=
        beq_false_of_ne fun equal => same (distinguishes key member first listed equal)
      have apart' : (key == first) = false := beq_false_of_ne same
      rw [lookup_cons, lookup_cons, apart, apart']
      exact others

theorem lookup_renameProperties (name : String) (properties : List (String × Node)) :
    (renameProperties names properties).lookup name =
      (properties.lookup name).map (rename names) := by
  induction properties with
  | nil => rfl
  | cons property rest ih =>
    obtain ⟨first, node⟩ := property
    rw [renameProperties, lookup_cons, lookup_cons, ih]
    cases name == first <;> rfl

theorem onlyValue?_rename (node : Node) : (node.rename names).onlyValue? = node.onlyValue? := by
  cases node with
  | enumeration note values extensible => rw [rename]
  | _ => simp only [rename, onlyValue?]

theorem target?_rename (node : Node) :
    (node.rename names).target? = node.target?.map (targetName names) := by
  cases node with
  | reference note target forward => rfl
  | _ => simp only [rename, target?, Option.map_none]

theorem mem_mentions_of_target? {node : Node} (reference : node.target? = some key) :
    key ∈ node.mentions true := by
  cases node with
  | reference note target forward =>
    cases reference
    simp [mentions]
  | _ => cases reference

mutual

/-- The literal value of a property is the same in a renamed schema, as long as it is behind the
references. -/
theorem tagIn_rename {follow follow' : String → Option Value} (property : String) :
    (node : Node) →
      (∀ key ∈ node.mentions true, follow' (targetName names key) = follow key) →
        tagIn follow' property (node.rename names) = tagIn follow property node
  | .reference note target forward, same => by
      simpa only [rename, tagIn] using same target (by simp [mentions])
  | .object note properties required extras declared title, same => by
      simp only [rename, tagIn, lookup_renameProperties]
      cases properties.lookup property with
      | none => rfl
      | some node => exact onlyValue?_rename node
  | .composition note .allOf members discriminator, same => by
      simp only [rename, tagIn]
      apply tagInList_rename property members
      intro key member
      apply same
      simp [mentions, member]
  | .composition note .anyOf members discriminator, same => by simp only [rename, tagIn]
  | .composition note .oneOf members discriminator, same => by simp only [rename, tagIn]
  | .primitive .., same => by simp only [rename, tagIn]
  | .null _, same => by simp only [rename, tagIn]
  | .any _, same => by simp only [rename, tagIn]
  | .array .., same => by simp only [rename, tagIn]
  | .enumeration .., same => by simp only [rename, tagIn]
  | .typeArray .., same => by simp only [rename, tagIn]

theorem tagInList_rename {follow follow' : String → Option Value} (property : String) :
    (members : List Node) →
      (∀ key ∈ mentionsList true members, follow' (targetName names key) = follow key) →
        tagInList follow' property (renameList names members) =
          tagInList follow property members
  | [], same => rfl
  | node :: rest, same => by
      simp only [mentionsList, mem_append] at same
      rw [renameList, tagInList, tagInList,
        tagIn_rename property node fun key member => same key (.inl member),
        tagInList_rename property rest fun key member => same key (.inr member)]

end

variable (distinguishes : Distinguishes names keys) (within : types.Within keys) (property : String)

include distinguishes within

theorem tagBehind_rename (fuel : Nat) {seen : List String} (visited : seen ⊆ keys)
    (member : key ∈ keys) :
    tagBehind (NamedNodes.rename names types) property fuel (seen.map (targetName names))
        (targetName names key) =
      tagBehind types property fuel seen key := by
  induction fuel generalizing seen key with
  | zero => rfl
  | succ fuel ih =>
    rw [tagBehind, tagBehind, distinguishes.contains_map visited member,
      lookup_rename distinguishes within member]
    split
    · rfl
    · cases found : types.lookup key with
      | none => rfl
      | some node =>
        have mentioned := (within (key, node) (mem_of_lookup found)).2
        have visited' : key :: seen ⊆ keys := cons_subset.mpr ⟨member, visited⟩
        exact tagIn_rename property node fun other inside => ih visited' (mentioned inside)

/-- The literal value of a property does not depend on how types are named. -/
theorem literalTag_rename {node : Node} (mentioned : node.mentions true ⊆ keys) :
    (node.rename names).literalTag (NamedNodes.rename names types) property =
      node.literalTag types property := by
  rw [literalTag, literalTag, NamedNodes.rename, length_map]
  apply tagIn_rename property node
  intro key member
  exact tagBehind_rename distinguishes within property types.length (nil_subset _)
    (mentioned member)

end Node

end Bindery

import Bindery.Code.Shape
import Bindery.Proofs.Schema.Redirect
import Bindery.Proofs.Value.Entries
import Bindery.Proofs.Value.Parts

/-!
# The scalars of a schema

The scalars that a schema can put into code: those of its default values and of
the values it lists, and the numbers that bound it.  Renaming the targets of a
schema leaves its scalars alone.  The tags by which the members of a union are
told apart are made of the scalars of the schemas involved, or are names.
-/

namespace Bindery

open Option List

/-- The scalars of a default value. -/
def Note.scalars (note : Note) : List Scalar :=
  (note.default.map Value.scalars).getD []

/-- The numbers that bound a primitive schema. -/
def Constraints.scalars (constraints : Constraints) : List Scalar :=
  [constraints.minimum, constraints.maximum, constraints.exclusiveMinimum,
    constraints.exclusiveMaximum, constraints.multipleOf].filterMap (·.map .float)

theorem Note.mem_scalars {note : Note} {value : Value} (given : value ∈ note.default) :
    value.scalars ⊆ note.scalars := by
  rw [mem_def] at given
  simp [scalars, given]

namespace Node

mutual

/-- The scalars that a schema can put into code. -/
def scalars : Node → List Scalar
  | .primitive note _ _ constraints => note.scalars ++ constraints.scalars
  | .null note => note.scalars
  | .any note => note.scalars
  | .array note items _ _ _ => note.scalars ++ scalarsOption items
  | .object note properties _ extras _ _ =>
    note.scalars ++ (scalarsProperties properties ++ scalarsExtras extras)
  | .composition note _ members _ => note.scalars ++ scalarsList members
  | .reference note _ _ => note.scalars
  | .enumeration note values _ => note.scalars ++ Value.scalarsList values
  | .typeArray note members => note.scalars ++ scalarsList members

def scalarsOption : Option Node → List Scalar
  | none => []
  | some node => scalars node

def scalarsProperties : List (String × Node) → List Scalar
  | [] => []
  | (_, node) :: rest => scalars node ++ scalarsProperties rest

def scalarsExtras : Extras Node → List Scalar
  | .closed => []
  | .open => []
  | .typed node => scalars node

def scalarsList : List Node → List Scalar
  | [] => []
  | node :: rest => scalars node ++ scalarsList rest

end

theorem scalarsList_eq (members : List Node) : scalarsList members = members.flatMap scalars := by
  induction members with
  | nil => rfl
  | cons member rest ih => rw [scalarsList, ih, flatMap_cons]

theorem scalarsProperties_eq (properties : List (String × Node)) :
    scalarsProperties properties = (properties.map (·.2)).flatMap scalars := by
  induction properties with
  | nil => rfl
  | cons property rest ih => rw [scalarsProperties, ih, map_cons, flatMap_cons]

/-- The scalars of a schema itself, outside its children. -/
def ownScalars : Node → List Scalar
  | .primitive note _ _ constraints => note.scalars ++ constraints.scalars
  | .enumeration note values _ => note.scalars ++ Value.scalarsList values
  | node => node.note.scalars

theorem scalars_eq (node : Node) :
    node.scalars = node.ownScalars ++ node.children.flatMap scalars := by
  cases node with
  | array note items => cases items <;> simp [scalars, scalarsOption, children, ownScalars, Node.note]
  | object note properties required extras =>
    cases extras <;> simp [scalars, scalarsProperties_eq, scalarsExtras, children, Extras.schemas,
      ownScalars, Node.note]
  | _ => simp [scalars, scalarsList_eq, children, ownScalars, Node.note]

theorem scalars_subset_of_mem_children {node child : Node} (member : child ∈ node.children) :
    child.scalars ⊆ node.scalars := by
  intro scalar inside
  rw [scalars_eq node]
  exact mem_append_right _ (mem_flatMap.mpr ⟨child, member, inside⟩)

theorem note_scalars_subset (node : Node) : node.note.scalars ⊆ node.scalars := by
  rw [scalars_eq]
  refine subset_append_of_subset_left _ ?_
  cases node <;> simp [ownScalars, Node.note]

/-! ## Renaming -/

/-- If schemas are changed in their targets alone, their scalars stay. -/
theorem scalars_change {change : Node → Node}
    (children : ∀ node, (change node).children = node.children.map change)
    (own : ∀ node, (change node).ownScalars = node.ownScalars) (node : Node) :
    (change node).scalars = node.scalars := by
  induction node using Node.induction with
  | step node ih =>
    rw [scalars_eq, scalars_eq node, own, children, flatMap_map]
    exact congrArg (_ ++ ·) (flatMap_congr ih)

theorem scalars_rename (names : List (String × String)) (node : Node) :
    (node.rename names).scalars = node.scalars :=
  scalars_change (children_rename names) (fun node => by cases node <;> rfl) node

theorem scalars_redirect (change : String → String) (node : Node) :
    (node.redirect change).scalars = node.scalars :=
  scalars_change (children_redirect change) (fun node => by cases node <;> rfl) node

/-! ## Tags -/

section Tags

variable {holds : Scalar → Prop}

def ValueHolds (holds : Scalar → Prop) (value : Value) : Prop :=
  ∀ scalar ∈ value.scalars, holds scalar

theorem onlyValue?_holds {node : Node} (each : ∀ scalar ∈ node.scalars, holds scalar) :
    ∀ value ∈ node.onlyValue?, ValueHolds holds value := by
  intro value found scalar member
  rw [mem_def, onlyValue?.eq_def] at found
  split at found
  next note listed extensible =>
    cases found
    apply each
    rw [scalars, Value.scalarsList]
    exact mem_append_right _ (mem_append_left _ member)
  next => cases found

mutual

theorem tagIn_holds {follow : String → Option Value} (property : String)
    (behind : ∀ target, ∀ value ∈ follow target, ValueHolds holds value) :
    (node : Node) → (∀ scalar ∈ node.scalars, holds scalar) →
      ∀ value ∈ tagIn follow property node, ValueHolds holds value
  | .reference _ target _, _ => behind target
  | .object note properties required extras declared title, each => by
      intro value found
      obtain ⟨node, stored, only⟩ := bind_eq_some_iff.mp found
      refine onlyValue?_holds (fun scalar member => each scalar ?_) value only
      refine scalars_subset_of_mem_children (mem_append_left _ ?_) member
      exact mem_map_of_mem (mem_of_lookup stored)
  | .composition note .allOf members discriminator, each =>
    tagInList_holds property behind members fun scalar member =>
      each scalar (mem_append_right _ member)
  | .composition note .anyOf members discriminator, _ => by simp [tagIn]
  | .composition note .oneOf members discriminator, _ => by simp [tagIn]
  | .primitive .., _ => by simp [tagIn]
  | .null _, _ => by simp [tagIn]
  | .any _, _ => by simp [tagIn]
  | .array .., _ => by simp [tagIn]
  | .enumeration .., _ => by simp [tagIn]
  | .typeArray .., _ => by simp [tagIn]

theorem tagInList_holds {follow : String → Option Value} (property : String)
    (behind : ∀ target, ∀ value ∈ follow target, ValueHolds holds value) :
    (members : List Node) → (∀ scalar ∈ scalarsList members, holds scalar) →
      ∀ value ∈ tagInList follow property members, ValueHolds holds value
  | [], _ => by simp [tagInList]
  | node :: rest, each => by
      obtain ⟨first, others⟩ := forall_mem_append.mp each
      intro value found
      rw [tagInList, mem_def, or_eq_some_iff] at found
      rcases found with here | ⟨_, there⟩
      · exact tagIn_holds property behind node first value here
      · exact tagInList_holds property behind rest others value there

end

variable {types : NamedNodes} (known : ∀ type ∈ types, ∀ scalar ∈ type.2.scalars, holds scalar)
include known

theorem tagBehind_holds (property : String) (fuel : Nat) (seen : List String) (target : String) :
    ∀ value ∈ tagBehind types property fuel seen target, ValueHolds holds value := by
  induction fuel generalizing seen target with
  | zero => simp [tagBehind]
  | succ fuel ih =>
    intro value found
    rw [tagBehind] at found
    split at found
    · cases found
    · obtain ⟨node, stored, here⟩ := bind_eq_some_iff.mp found
      exact tagIn_holds property (ih (target :: seen)) node
        (known (target, node) (mem_of_lookup stored)) value here

theorem literalTag_holds {node : Node} (each : ∀ scalar ∈ node.scalars, holds scalar)
    (property : String) : ∀ value ∈ node.literalTag types property, ValueHolds holds value :=
  tagIn_holds property (tagBehind_holds known property types.length []) node each

/-- The value by which a member is told apart is made of scalars of the schemas, or is a name. -/
theorem inferredTag_holds {node : Node} (each : ∀ scalar ∈ node.scalars, holds scalar)
    (text : ∀ name, holds (.str name)) (property : String) :
    ∀ value ∈ node.inferredTag types property, ValueHolds holds value := by
  intro value found
  rw [inferredTag, mem_def, or_eq_some_iff] at found
  rcases found with literal | ⟨_, named⟩
  · exact literalTag_holds known each property value literal
  · obtain ⟨name, _, rfl⟩ := map_eq_some_iff.mp named
    intro scalar member
    rw [mem_singleton.mp member]
    exact text name

end Tags

end Node

end Bindery

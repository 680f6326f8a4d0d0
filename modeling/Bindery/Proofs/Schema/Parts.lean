import Bindery.Schema.References
import Mathlib.Data.List.Basic

/-!
# The parts of a schema

A schema is made of the schemas of its items, properties, undeclared keys,
members and types.  These are its children, and a property of all schemas is
proved by showing it of a schema whose children have it.  What a schema mentions
is what its children mention, and its own targets.
-/

namespace Bindery

open List

def Extras.schemas {Schema : Type} : Extras Schema → List Schema
  | .closed => []
  | .open => []
  | .typed schema => [schema]

namespace Node

/-- The schemas that a schema is made of. -/
def children : Node → List Node
  | .array _ items _ _ _ => items.toList
  | .object _ properties _ extras _ _ => properties.map (·.2) ++ extras.schemas
  | .composition _ _ members _ => members
  | .typeArray _ members => members
  | _ => []

variable {node child : Node} {target : String}

theorem sizeOf_lt_of_mem_children (member : child ∈ node.children) :
    sizeOf child < sizeOf node := by
  cases node with
  | array note items least most unique =>
    obtain rfl : items = some child := by simpa [children] using member
    simp +arith
  | object note properties required extras declared title =>
    rcases mem_append.mp member with declared | extra
    · obtain ⟨property, listed, rfl⟩ := mem_map.mp declared
      have inside := sizeOf_lt_of_mem listed
      have part : sizeOf property.2 < sizeOf property := by
        cases property
        simp +arith
      simp +arith
      omega
    · cases extras with
      | typed schema =>
        obtain rfl : child = schema := by simpa [Extras.schemas] using extra
        simp +arith
      | _ => cases extra
  | composition note mode members discriminator =>
    have inside := sizeOf_lt_of_mem (show child ∈ members from member)
    simp +arith
    omega
  | typeArray note members =>
    have inside := sizeOf_lt_of_mem (show child ∈ members from member)
    simp +arith
    omega
  | _ => cases member

/-- What holds of a schema whenever it holds of its children holds of every schema. -/
@[elab_as_elim]
theorem induction {motive : Node → Prop}
    (step : ∀ node, (∀ child ∈ node.children, motive child) → motive node) :
    ∀ node, motive node := by
  intro node
  exact step node fun child member => induction step child
termination_by node => sizeOf node
decreasing_by exact sizeOf_lt_of_mem_children member

/-- A schema is a part of another: it is the schema itself or a part of one of its children. -/
inductive PartOf (part : Node) : Node → Prop
  | itself : PartOf part part
  | child {node child : Node} (member : child ∈ node.children) (inside : PartOf part child) :
      PartOf part node

/-- A schema has a forward reference to a target. -/
def Defers (node : Node) (target : String) : Prop :=
  ∃ note, PartOf (.reference note target true) node

/-- A schema that is no reference has the forward references of its children. -/
theorem Defers.of_child (defers : node.Defers target)
    (bare : ∀ note forward, node ≠ .reference note target forward) :
    ∃ child ∈ node.children, child.Defers target := by
  obtain ⟨note, inside⟩ := defers
  cases inside with
  | itself => exact absurd rfl (bare note true)
  | child member inside => exact ⟨_, member, note, inside⟩

/-! ## Targets -/

variable (all : Bool)

/-- The targets a schema mentions itself, outside its children. -/
def ownTargets : Node → List String
  | .composition _ _ _ discriminator => if all then Discriminator.targetsOf discriminator else []
  | .reference _ target forward => if all || !forward then [target] else []
  | _ => []

theorem mentionsList_eq (members : List Node) :
    mentionsList all members = members.flatMap (mentions all) := by
  induction members with
  | nil => rfl
  | cons member rest ih => rw [mentionsList, ih, flatMap_cons]

theorem mentions_subset_mentionsList {member : Node} {members : List Node}
    (inside : member ∈ members) : member.mentions all ⊆ mentionsList all members := by
  intro target mentioned
  rw [mentionsList_eq]
  exact mem_flatMap.mpr ⟨member, inside, mentioned⟩

theorem mentionsProperties_eq (properties : List (String × Node)) :
    mentionsProperties all properties = (properties.map (·.2)).flatMap (mentions all) := by
  induction properties with
  | nil => rfl
  | cons property rest ih => rw [mentionsProperties, ih, map_cons, flatMap_cons]

theorem mentions_eq (node : Node) :
    node.mentions all = node.children.flatMap (mentions all) ++ node.ownTargets all := by
  cases node with
  | array note items => cases items <;> simp [mentions, mentionsOption, children, ownTargets]
  | object note properties required extras =>
    cases extras <;>
      simp [mentions, mentionsProperties_eq, mentionsExtras, children, Extras.schemas, ownTargets]
  | composition => rw [mentions, mentionsList_eq, children, ownTargets]
  | typeArray => simp [mentions, mentionsList_eq, children, ownTargets]
  | _ => simp [mentions, children, ownTargets]

theorem mentions_subset_of_mem_children (member : child ∈ node.children) :
    child.mentions all ⊆ node.mentions all := by
  intro target mentioned
  rw [mentions_eq]
  exact mem_append_left _ (mem_flatMap.mpr ⟨child, member, mentioned⟩)

theorem Defers.mentioned (defers : node.Defers target) : target ∈ node.mentions true := by
  obtain ⟨note, inside⟩ := defers
  induction inside with
  | itself => simp [mentions]
  | child member _ ih => exact mentions_subset_of_mem_children true member ih

/-- What a schema mentions directly is among what it mentions. -/
theorem mentions_direct_subset (node : Node) : node.mentions false ⊆ node.mentions true := by
  induction node using Node.induction with
  | step node ih =>
    intro target mentioned
    rw [mentions_eq, mem_append] at mentioned
    rcases mentioned with inside | own
    · obtain ⟨child, member, here⟩ := mem_flatMap.mp inside
      exact mentions_subset_of_mem_children true member (ih child member here)
    · rw [mentions_eq]
      refine mem_append_right _ ?_
      cases node <;> simp_all [ownTargets]

/-- If the targets of schemas are changed in the same way throughout, so is what they mention. -/
theorem mentions_change {change : Node → Node} {target : String → String}
    (children : ∀ node, (change node).children = node.children.map change)
    (own : ∀ node, (change node).ownTargets all = (node.ownTargets all).map target) (node : Node) :
    (change node).mentions all = (node.mentions all).map target := by
  induction node using Node.induction with
  | step node ih =>
    rw [mentions_eq, mentions_eq all node, children, own, map_append, map_flatMap,
      flatMap_map]
    exact congrArg (· ++ _) (flatMap_congr ih)

/-! ## Renaming -/

variable (names : List (String × String))

theorem renameList_eq_map (nodes : List Node) :
    renameList names nodes = nodes.map (rename names) := by
  induction nodes with
  | nil => rfl
  | cons node rest ih => rw [renameList, ih, map_cons]

theorem renameProperties_eq_map (properties : List (String × Node)) :
    renameProperties names properties =
      properties.map fun property => (property.1, property.2.rename names) := by
  induction properties with
  | nil => rfl
  | cons property rest ih => rw [renameProperties, ih, map_cons]

theorem children_rename (node : Node) :
    (node.rename names).children = node.children.map (rename names) := by
  cases node with
  | array note items => cases items <;> rfl
  | object note properties required extras =>
    cases extras <;>
      simp [rename, renameProperties_eq_map, renameExtras, children, Extras.schemas]
  | composition => exact renameList_eq_map names _
  | typeArray => exact renameList_eq_map names _
  | _ => rfl

end Node

end Bindery

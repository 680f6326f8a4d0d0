import Bindery.Operation.Basic
import Bindery.Proofs.Code.Imports
import Bindery.Proofs.Schema.Redirect
import Bindery.Proofs.Value.Entries

/-!
# Renaming targets and nothing else

A renamed schema is the schema with its targets replaced, at every depth: both are
the same once their targets are replaced by others, and the references stay
forward ones or direct ones in their order.  A renamed operation has renamed
schemas and is the same apart from its schemas.
-/

namespace Bindery

open List

namespace Node

variable (names : List (String × String))

/-- The references of a schema in their order, with their targets and whether they are forward. -/
def references (node : Node) : List (String × Bool) :=
  (match node with
    | .reference _ target forward => [(target, forward)]
    | _ => []) ++ node.children.attach.flatMap fun child => references child.1
termination_by sizeOf node
decreasing_by exact sizeOf_lt_of_mem_children child.2

theorem references_rename (node : Node) : (node.rename names).references =
    node.references.map fun reference => (targetName names reference.1, reference.2) := by
  induction node using Node.induction with
  | step node ih =>
    have inner (node : Node) : (node.children.attach.flatMap fun child => references child.1) =
        node.children.flatMap references := by
      rw [flatMap_subtype, unattach_attach]
      intro _ _
      rfl
    rw [references.eq_def, references.eq_def node, inner, inner, children_rename, flatMap_map,
      map_append, map_flatMap]
    refine congr (congrArg _ ?_) (flatMap_congr ih)
    cases node <;> rfl

/-- Replacing the targets of a renamed schema is replacing those of the schema by their names. -/
theorem redirect_rename (change : String → String) (node : Node) :
    (node.rename names).redirect change = node.redirect (change ∘ targetName names) := by
  induction node using Node.induction with
  | step node ih =>
    have listed (nodes : List Node)
        (each : ∀ node ∈ nodes, redirect change (rename names node) =
          redirect (change ∘ targetName names) node) :
        (nodes.map (rename names)).map (redirect change) =
          nodes.map (redirect (change ∘ targetName names)) := by
      rw [map_map]
      exact map_congr_left each
    cases node with
    | array note items =>
      cases items with
      | none => rfl
      | some item =>
        simp only [rename, renameOption, redirect, redirectOption, ih item mem_cons_self]
    | object note properties required extras =>
      obtain ⟨named, typed⟩ := forall_mem_append.mp ih
      have values : (renameProperties names properties).map (·.2) =
          (properties.map (·.2)).map (rename names) := by
        rw [renameProperties_eq_map, map_map, map_map]
        rfl
      have keys : (renameProperties names properties).map (·.1) = properties.map (·.1) := by
        rw [renameProperties_eq_map, map_map]
        rfl
      rw [rename, redirect, redirect, redirectProperties_eq, redirectProperties_eq, values, keys,
        listed _ named]
      cases extras with
      | typed schema =>
        rw [renameExtras, redirectExtras, redirectExtras, typed schema mem_cons_self]
      | _ => rfl
    | composition note mode nodes discriminator =>
      rw [rename, redirect, redirect, redirectList_eq, redirectList_eq, renameList_eq_map,
        listed nodes ih]
      rcases discriminator with _ | ⟨property, _ | mapping⟩ <;>
        simp [Discriminator.redirect, Discriminator.rename]
    | typeArray note nodes =>
      rw [rename, redirect, redirect, redirectList_eq, redirectList_eq, renameList_eq_map,
        listed nodes ih]
    | _ => rfl

end Node

theorem eraseDups_map (change : String → String) (items : List String) :
    (items.map change).eraseDups = (items.eraseDups.map change).eraseDups := by
  induction items using reverseRecOn with
  | nil => rfl
  | append_singleton items item ih =>
    have same : change item ∈ items.eraseDups.map change ↔ change item ∈ items.map change := by
      simp only [mem_map, mem_eraseDups]
    rw [map_append, map_singleton, eraseDups_concat, eraseDups_concat]
    by_cases listed : item ∈ items
    · rw [if_pos listed, if_pos (mem_map_of_mem listed), ih]
    · rw [if_neg listed, map_append, map_singleton, eraseDups_concat, ih]
      simp only [same]

namespace Operation

/-- Every schema of an operation, in a fixed order of its places. -/
def allSchemas (operation : Operation) : List Node :=
  (operation.pathLevel ++ operation.parameters.all).map (·.schema) ++
    ((operation.body.toList.flatMap (·.content)) ++ operation.responses.flatMap (·.content) ++
      operation.union.flatMap (·.media.toList)).map (·.schema)

/-- An operation without its schemas. -/
def bare (operation : Operation) : Operation :=
  let parameters := map fun parameter : Parameter => { parameter with schema := .any {} }
  let contents := map fun media : Media => { media with schema := .any {} }
  { operation with
    pathLevel := parameters operation.pathLevel
    parameters := ⟨parameters operation.parameters.query, parameters operation.parameters.path,
      parameters operation.parameters.header, parameters operation.parameters.cookie⟩
    body := operation.body.map fun body => { body with content := contents body.content }
    responses := operation.responses.map fun response =>
      { response with content := contents response.content }
    union := operation.union.map fun member =>
      { member with media := member.media.map fun media => { media with schema := .any {} } } }

theorem bare_rename (names : List (String × String)) (operation : Operation) :
    (operation.rename names).bare = operation.bare := by
  simp [bare, rename, ParameterGroups.rename, Parameter.rename, Media.rename, Function.comp_def]

theorem allSchemas_rename (names : List (String × String)) (operation : Operation) :
    (operation.rename names).allSchemas = operation.allSchemas.map (Node.rename names) := by
  simp [allSchemas, rename, ParameterGroups.rename, ParameterGroups.all, Parameter.rename,
    Media.rename, Function.comp_def, flatMap_map, map_flatMap, Option.toList_map]

end Operation

end Bindery

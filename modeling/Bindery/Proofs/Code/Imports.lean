import Bindery.Code.Fragment
import Bindery.Proofs.Schema.Parts
import Bindery.Proofs.Value.Entries

/-!
# What fragments and schemas mention

A combination of fragments mentions and imports only what its parts do.
Renaming the targets of a schema renames what it mentions.
-/

namespace Bindery

open List

namespace Fragment

variable {Code Part : Type} {mentioned direct : List String}

/-- A fragment mentions only some names, and imports only some of them. -/
structure Within (mentioned direct : List String) (fragment : Fragment Code) : Prop where
  dependencies : fragment.dependencies ⊆ mentioned
  forward : fragment.forward ⊆ mentioned
  imports : fragment.imports ⊆ direct

theorem Within.mono {mentioned' direct' : List String} {fragment : Fragment Code}
    (within : fragment.Within mentioned direct) (more : mentioned ⊆ mentioned')
    (moreDirect : direct ⊆ direct') : fragment.Within mentioned' direct' where
  dependencies := Subset.trans within.dependencies more
  forward := Subset.trans within.forward more
  imports := Subset.trans within.imports moreDirect

/-- A combination mentions and imports only what its parts do. -/
theorem within_combine {parts : List (Fragment Part)} (code : Code)
    (each : ∀ part ∈ parts, part.Within mentioned direct) :
    (combine code parts).Within mentioned direct := by
  have imported : (parts.flatMap imports).eraseDups ⊆ direct := by
    intro name member
    obtain ⟨part, inside, here⟩ := mem_flatMap.mp (mem_eraseDups.mp member)
    exact (each part inside).imports here
  have dependent : (parts.flatMap imports).eraseDups ⊆ mentioned := by
    intro name member
    obtain ⟨part, inside, here⟩ := mem_flatMap.mp (mem_eraseDups.mp member)
    exact (each part inside).dependencies (mem_filter.mp here).1
  have lazily : (combine code parts).forward ⊆ mentioned := by
    intro name member
    have kept := (mem_filter.mp (mem_eraseDups.mp member)).1
    obtain ⟨part, inside, here⟩ := mem_flatMap.mp kept
    exact (each part inside).forward here
  refine ⟨append_subset.mpr ⟨dependent, lazily⟩, lazily, ?_⟩
  intro name member
  obtain ⟨present, eager⟩ := mem_filter.mp member
  rcases mem_append.mp present with here | deferred
  · exact imported here
  · have lazy : name ∈ (combine code parts).forward := deferred
    exact absurd lazy (by simpa using eager)

end Fragment

/-! ## Renaming -/

theorem mem_targetName {names : List (String × String)} {target : String}
    (named : target ∈ names.map Prod.fst) : (target, targetName names target) ∈ names := by
  obtain ⟨pair, member, rfl⟩ := mem_map.mp named
  have found : (names.lookup pair.1).isSome = true :=
    lookup_isSome_iff.mpr ⟨pair, member, BEq.rfl⟩
  obtain ⟨name, looked⟩ := Option.isSome_iff_exists.mp found
  rw [targetName, looked]
  exact mem_of_lookup looked

theorem Discriminator.targetsOf_rename (names : List (String × String))
    (discriminator : Option Discriminator) :
    targetsOf (discriminator.map (rename names)) =
      (targetsOf discriminator).map (targetName names) := by
  cases discriminator with
  | none => rfl
  | some discriminator =>
    obtain ⟨property, mapping⟩ := discriminator
    cases mapping with
    | none => rfl
    | some mapping =>
      simp [targetsOf, targets, rename, Function.comp_def]

namespace Node

theorem mentions_rename (names : List (String × String)) (all : Bool) (node : Node) :
    (node.rename names).mentions all = (node.mentions all).map (targetName names) := by
  refine mentions_change all (children_rename names) (fun node => ?_) node
  cases node with
  | composition => cases all <;> simp [rename, ownTargets, Discriminator.targetsOf_rename]
  | reference => simp only [rename, ownTargets]; split <;> rfl
  | _ => rfl

end Node

end Bindery

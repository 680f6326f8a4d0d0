import Mathlib
import Bindery.Operation.Binding
import Bindery.Proofs.Naming.Assignment
import Bindery.Proofs.Operation.Analysis

/-!
# Ids of operations

The base of an id is a single word.  So the bounded search for an id finds one whose
module no earlier operation has: each earlier id stops at most two members of the
numbered sequence, one by its text and one by its module.

An operation may be left out after it got its id.  The ids of the operations that
are read are among those that were given, and in their order.
-/

namespace Bindery

open Naming Course List Text Keeps

/-! ## The base of an id -/

namespace Analysis

theorem isWord_decapitalize {text : String} (isWord : IsWord text.toList) :
    IsWord (decapitalize text).toList := by
  obtain ⟨first, rest, characters⟩ := exists_cons_of_ne_nil isWord.nonempty
  have chars := isWord.chars
  rw [characters] at chars
  have start := chars first mem_cons_self
  have small : lowerAfter [] [first] = [first.toLower] := by
    rw [lowerAfter_cons (toNat_lt_of_isWordChar start), lowerAfter]
  simp only [decapitalize, characters, small, String.toList_ofList]
  refine ⟨by simp, forall_mem_cons.mpr ⟨isWordChar_toLower start, ?_⟩⟩
  intro c member
  exact chars c (mem_cons_of_mem first member)

theorem isWord_camelCase (raw : String) : IsWord (camelCase raw).toList := by
  have fallback : IsWord (capitalize "operation").toList :=
    ⟨by decide, all_eq_true.mp (by decide)⟩
  exact isWord_decapitalize (isWord_pascalCase_of fallback raw)

theorem isWordChar_of_mem_join {texts : List String}
    (each : ∀ text ∈ texts, IsWord text.toList) {c : Char}
    (member : c ∈ (join "" texts).toList) : isWordChar c = true := by
  induction texts with
  | nil => cases member
  | cons text rest ih =>
    have here := (each text mem_cons_self).chars
    cases rest with
    | nil => exact here c member
    | cons next rest =>
      simp only [join, String.toList_append, mem_append] at member
      rcases member with (first | none) | later
      · exact here c first
      · cases none
      · exact ih (fun other inside => each other (mem_cons_of_mem text inside)) later

theorem isWord_method (method : Method) : IsWord method.text.toList := by
  cases method <;> exact ⟨by decide, all_eq_true.mp (by decide)⟩

variable {base : String} {earlier : List String}

theorem isWord_idBase {operation : Entries} {method : Method} {path : Scalar}
    (returned : idBase operation method.text path = .ok base) : IsWord base.toList := by
  have ofPath (same : idBase.ofPath method.text path = .ok base) : IsWord base.toList := by
    unfold idBase.ofPath at same
    split at same
    next path =>
      cases same
      have isMethod := isWord_method method
      refine ⟨by simp [isMethod.nonempty], ?_⟩
      intro c member
      rcases mem_append.mp (String.toList_append ▸ member) with first | later
      · exact isMethod.chars c first
      · refine isWordChar_of_mem_join ?_ later
        intro text inside
        obtain ⟨segment, -, rfl⟩ := mem_map.mp inside
        exact isWord_pascalCase_of ⟨by decide, all_eq_true.mp (by decide)⟩ segment
    next => cases same
    next => cases same
  unfold idBase at returned
  split at returned
  next raw own =>
    split at returned
    next blank => exact ofPath returned
    next filled =>
      cases returned
      exact isWord_camelCase raw
  next => exact ofPath returned

/-! ## Distinct ids -/

/-- No two ids have one module. -/
def Distinct (ids : List String) : Prop :=
  (ids.map snakeCase).Nodup

theorem isAvailableId_distinctId (earlier : List String) (isWord : IsWord base.toList) :
    isAvailableId earlier (distinctId earlier base) = true := by
  refine isAvailable_firstAvailable_of_taken isWord ∅ earlier earlier ?_ fun index unavailable => ?_
  · rw [Finset.card_empty]
    omega
  · simp only [isAvailableId, contains_eq_mem] at unavailable
    grind

theorem Distinct.append_distinctId (distinct : Distinct earlier) (isWord : IsWord base.toList) :
    Distinct (earlier ++ [distinctId earlier base]) := by
  have available := isAvailableId_distinctId earlier isWord
  have fresh : snakeCase (distinctId earlier base) ∉ earlier.map snakeCase := by
    simp only [isAvailableId, Bool.and_eq_true] at available
    simpa using available.2
  rw [Distinct, map_append, map_singleton]
  exact nodup_append'.2 ⟨distinct, nodup_singleton _, by simpa using fresh⟩

/-! ## Ids taken by the reading of operations -/

/-- The course of taking ids: more are taken, and all stay distinct. -/
def taking : Course Analyzing where
  sound analyzing := Distinct analyzing.ids
  leads first last := first.ids.Sublist last.ids ∧ (Distinct first.ids → Distinct last.ids)
  refl _ := ⟨.refl _, id⟩
  trans first second := ⟨first.1.trans second.1, second.2 ∘ first.2⟩
  keeps leads := leads.2

theorem stable_taken (earlier : List String) :
    taking.Stable fun analyzing => earlier.Sublist analyzing.ids :=
  fun _ _ leads taken => taken.trans leads.1

theorem resolving_taking {α : Type} {known : List String → Prop} (step : Resolving α) :
    taking.Keeps (fun analyzing => known analyzing.ids) (resolving step)
      fun _ analyzing => known analyzing.ids := by
  intro analyzing _ holds
  rw [start_resolving]
  exact ⟨fun _ _ => ⟨taking.refl analyzing, holds⟩, fun _ _ => taking.refl analyzing⟩

theorem takeId_taking (isWord : IsWord base.toList) :
    taking.Keeps (fun analyzing => earlier.Sublist analyzing.ids) (takeId base)
      fun id analyzing => (earlier ++ [id]).Sublist analyzing.ids := by
  intro analyzing distinct taken
  refine Run.lands_ok ⟨⟨sublist_append_left _ _, fun _ => ?_⟩, taken.append_right _⟩
  exact distinct.append_distinctId isWord

variable (sources : Sources)

/-- An operation that is read took its id after those that were taken before. -/
theorem readOperation_taking (earlier : List String) (path : Scalar) (method : Method)
    (item operation : Entries) (base : String) :
    taking.Keeps (fun analyzing => earlier.Sublist analyzing.ids)
      (readOperation sources path method item operation base)
      fun result analyzing => (earlier ++ [result.id]).Sublist analyzing.ids := by
  unfold readOperation
  refine .bind (resolving_taking _) fun parameters => ?_
  refine .bind (resolving_taking _) fun responses => ?_
  refine .ofExcept_bind fun security _ => ?_
  refine .ofExcept_bind fun idBase returned => ?_
  refine .bind (takeId_taking (isWord_idBase returned)) fun id => ?_
  refine .ofExcept_bind fun tags _ => ?_
  refine .bind (resolving_taking _) fun body => ?_
  refine .ofExcept_bind fun union _ => ?_
  refine .ofExcept_bind fun texts _ => ?_
  exact .pure fun _ taken => taken

theorem readPathItem_taking (earlier : List String) (path : Scalar) (item : Entries)
    (base : String) (entries : Entries) :
    taking.Keeps (fun analyzing => earlier.Sublist analyzing.ids)
      (readPathItem sources path item base entries)
      fun operations analyzing => (earlier ++ operations.map (·.id)).Sublist analyzing.ids := by
  fun_induction readPathItem sources path item base entries generalizing earlier with
  | case1 => exact pure fun _ taken => by simpa using taken
  | case2 key operation rest unknown ih => exact ih earlier
  | case3 key operation rest method known ih =>
    -- An operation that fails may have taken an id, but none that was taken before is lost.
    have read := (readOperation_taking sources earlier path method item operation
      base).attempt.frame (stable_taken earlier)
    refine bind (read.weaken (fun _ taken => ⟨taken, taken⟩) fun _ _ ended => ended)
      fun result => ?_
    split
    next operation =>
      refine (bind (ih (earlier ++ [operation.id])) fun others => pure fun _ taken => ?_
        ).weaken (fun _ ended => ended.1 operation rfl) fun _ _ ended => ended
      simpa using taken
    next cause =>
      exact (bind (resolving_taking _) fun _ => ih earlier).weaken (fun _ ended => ended.2)
        fun _ _ ended => ended
  | case4 entry rest other ih => exact ih earlier

theorem readPaths_taking (earlier : List String) (entries : Entries) :
    taking.Keeps (fun analyzing => earlier.Sublist analyzing.ids) (readPaths sources entries)
      fun operations analyzing => (earlier ++ operations.map (·.id)).Sublist analyzing.ids := by
  induction entries generalizing earlier with
  | nil => exact pure fun _ taken => by simpa using taken
  | cons entry rest ih =>
    unfold readPaths
    refine bind ((resolving_taking (Resolving.follow sources entry.2)).attempt.frame
      (stable_taken earlier) |>.weaken (fun _ taken => ⟨taken, taken⟩) fun _ _ ended => ended.2)
      fun result => ?_
    split
    · exact bind (resolving_taking _) fun _ => ih earlier
    · refine bind (readPathItem_taking sources earlier _ _ _ _) fun operations => ?_
      refine bind (ih _) fun others => pure fun _ taken => ?_
      simpa using taken
    · exact ih earlier

/-- No two operations that are read have ids with one module. -/
theorem distinct_operations {findings last : Findings} {operations : List Operation}
    (ran : (Analysis.operations sources).start findings = (.ok operations, last)) :
    Distinct (operations.map (·.id)) := by
  have takes : taking.Keeps (fun _ => True)
      (do readPaths sources (← Run.ofExcept sources.root.paths.needEntries))
      fun operations analyzing => (operations.map (·.id)).Sublist analyzing.ids :=
    bind (ofExcept fun _ _ analyzing _ => nil_sublist analyzing.ids)
      (readPaths_taking sources [])
  have landed := takes { findings } nodup_nil trivial
  obtain ⟨leads, within⟩ := landed.ok operations (congrArg Prod.fst ran)
  exact (leads.2 nodup_nil).sublist (within.map snakeCase)

end Analysis

/-! ## Modules of operations -/

namespace Binding

theorem isUsable_moduleName (id : String) : IsUsable (moduleName id) := by
  have isModule := isModule_snakeCase id
  rw [moduleName]
  split
  next keyword => exact isModule.isUsable_append_underscore
  next plain => exact isModule.isUsable (by simpa using plain)

/-- The underscore behind a keyword does not make it the module of something else. -/
theorem snakeCase_eq_of_moduleName_eq {first second : String}
    (same : moduleName first = moduleName second) : snakeCase first = snakeCase second := by
  have differ (raw : String) (other : String) : snakeCase raw ≠ other ++ "_" := by
    intro ends
    apply (isModule_snakeCase raw).back
    rw [ends]
    simp
  simp only [moduleName] at same
  split at same
  next =>
    split at same
    next => exact String.append_left_inj "_" |>.mp same
    next => exact absurd same.symm (differ second _)
  next =>
    split at same
    next => exact absurd same (differ first _)
    next => exact same

theorem nodup_moduleName {ids : List String} (distinct : Analysis.Distinct ids) :
    (ids.map moduleName).Nodup := by
  rw [Analysis.Distinct, Nodup, pairwise_map] at distinct
  rw [Nodup, pairwise_map]
  exact distinct.imp fun differ same => differ (snakeCase_eq_of_moduleName_eq same)

theorem ofOperation_module (scope : Code.Scope) (surface : Surface) (authHeaders : List String)
    (operation : Operation) :
    Run.Returns (ofOperation scope surface authHeaders operation) fun binding =>
      binding.module = moduleName operation.id := by
  unfold ofOperation
  refine .after _ fun queryModel => ?_
  refine .after _ fun pathModel => ?_
  refine .after _ fun headerModel => ?_
  refine .after _ fun body => ?_
  refine .after _ fun responses => ?_
  refine .after _ fun arguments => ?_
  exact .pure rfl

end Binding

end Bindery

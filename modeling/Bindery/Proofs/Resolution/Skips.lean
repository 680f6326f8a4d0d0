import Bindery.Proofs.Resolution.Findings
import Mathlib.Logic.Relation

/-!
# What is skipped

When all schemas are read, those from which a failed one can be reached along
their targets are skipped.  This is computed by passes over the registered
schemas, until one of them skips nothing.

Three facts about a pass carry the argument.  What it skips depends on something
skipped before, a pass that skips nothing has found all dependents, and any
other pass leaves fewer schemas to skip.
-/

namespace Bindery

open List

namespace Registry

/-- A registered schema has a target. -/
def DependsOn (entries : List Registration) (key target : String) : Prop :=
  ∃ entry ∈ entries, entry.key = key ∧ target ∈ entry.dependencies

/-- A failed schema can be reached along targets, in any number of steps. -/
def ReachesFailure (entries : List Registration) (key : String) : Prop :=
  ∃ failed, Failed entries failed ∧ Relation.ReflTransGen (DependsOn entries) key failed

variable {entries : List Registration} {key : String} {entry : Registration} {skipped : List String}

theorem ReachesFailure.registered (reaches : ReachesFailure entries key) : key ∈ keys entries := by
  obtain ⟨failed, ⟨entry, member, same, _⟩, path⟩ := reaches
  rcases Relation.ReflTransGen.cases_head path with rfl | ⟨_, ⟨first, member', same', _⟩, _⟩
  · exact mem_keys.mpr ⟨entry, member, same⟩
  · exact mem_keys.mpr ⟨first, member', same'⟩

/-- The diagnostic by which a schema was reported that depends on skipped ones. -/
def DroppedBy (entries : List Registration) (root : String) (skipped : List String)
    (entry : Registration) (diagnostic : Diagnostic) : Prop :=
  ∃ missing, missing ≠ [] ∧ missing ⊆ entry.dependencies ∧ missing ⊆ skipped ∧
    diagnostic = dependencySkip entries root entry missing

/-- Further schemas are skipped, each of them once, and each is reported once. -/
def Skips (entries : List Registration) (root : String) (before : List String)
    (after : List String × List Diagnostic) : Prop :=
  ∃ dropped : List Registration, dropped ⊆ entries ∧ after.1 = before ++ keys dropped ∧
    (keys dropped).Nodup ∧ (∀ key ∈ keys dropped, key ∉ before) ∧
    Forall₂ (DroppedBy entries root after.1) dropped after.2

namespace Skips

variable {entries : List Registration} {root : String} {before : List String}
  {middle after : List String × List Diagnostic}

theorem refl (before : List String) : Skips entries root before (before, []) :=
  ⟨[], by simp, by simp [keys], by simp [keys], by simp [keys], .nil⟩

theorem trans (first : Skips entries root before middle)
    (second : Skips entries root middle.1 after) :
    Skips entries root before (after.1, middle.2 ++ after.2) := by
  obtain ⟨dropped, within, skipped, distinct, fresh, reported⟩ := first
  obtain ⟨dropped', within', skipped', distinct', fresh', reported'⟩ := second
  have kept : middle.1 ⊆ after.1 := by
    rw [skipped']
    exact subset_append_left _ _
  refine ⟨dropped ++ dropped', append_subset.mpr ⟨within, within'⟩, ?_, ?_, ?_, ?_⟩
  · rw [skipped', skipped, keys_append, append_assoc]
  · rw [keys_append]
    refine distinct.append distinct' fun key here there => fresh' key there ?_
    rw [skipped]
    exact mem_append_right _ here
  · intro key member
    rw [keys_append] at member
    rcases mem_append.mp member with here | there
    · exact fresh key here
    · intro old
      refine fresh' key there ?_
      rw [skipped]
      exact mem_append_left _ old
  · refine rel_append (reported.imp ?_) reported'
    rintro entry diagnostic ⟨missing, some, depended, gone, same⟩
    exact ⟨missing, some, depended, Subset.trans gone kept, same⟩

end Skips

section Pass

variable (entries : List Registration) (root : String)

variable {rest : List Registration} {skipped : List String}

theorem skipPass_cons_of_kept
    (kept : entry.key ∈ skipped ∨ ∀ target ∈ entry.dependencies, target ∉ skipped) :
    skipPass entries root (entry :: rest) skipped = skipPass entries root rest skipped := by
  have passed : (skipped.contains entry.key ||
      (entry.dependencies.filter skipped.contains).isEmpty) = true := by
    simpa [List.isEmpty_iff, List.filter_eq_nil_iff] using kept
  simp only [skipPass, passed, if_true]

theorem skipPass_cons_of_dropped (fresh : entry.key ∉ skipped)
    (depends : ∃ target ∈ entry.dependencies, target ∈ skipped) :
    skipPass entries root (entry :: rest) skipped =
      ((skipPass entries root rest (skipped ++ [entry.key])).1,
        dependencySkip entries root entry (entry.dependencies.filter skipped.contains) ::
          (skipPass entries root rest (skipped ++ [entry.key])).2) := by
  have dropped : (skipped.contains entry.key ||
      (entry.dependencies.filter skipped.contains).isEmpty) = false := by
    simpa [List.isEmpty_iff, List.filter_eq_nil_iff, fresh] using depends
  simp only [skipPass, dropped]
  rfl

variable {entries root}

/-- What a pass skips was not skipped before, and is reported. -/
theorem skips_skipPass (within : rest ⊆ entries) (skipped : List String) :
    Skips entries root skipped (skipPass entries root rest skipped) := by
  induction rest generalizing skipped with
  | nil => exact Skips.refl skipped
  | cons entry rest ih =>
    have later : rest ⊆ entries := fun _ member => within (mem_cons_of_mem entry member)
    by_cases kept : entry.key ∈ skipped ∨ ∀ target ∈ entry.dependencies, target ∉ skipped
    · rw [skipPass_cons_of_kept entries root kept]
      exact ih later skipped
    · push Not at kept
      obtain ⟨fresh, depends⟩ := kept
      rw [skipPass_cons_of_dropped entries root fresh depends]
      have here : Skips entries root skipped (skipped ++ [entry.key],
          [dependencySkip entries root entry
            (entry.dependencies.filter skipped.contains)]) := by
        refine ⟨[entry], by simpa using within mem_cons_self, rfl, by simp [keys],
          by simpa [keys] using fresh, .cons ⟨_, ?_, filter_subset_self _, ?_, rfl⟩ .nil⟩
        · simpa [filter_eq_nil_iff] using depends
        · intro target member
          exact mem_append_left _ (by simpa using (mem_filter.mp member).2)
      exact here.trans (ih later (skipped ++ [entry.key]))

/-- What a pass skips reaches a failure if what was skipped before does. -/
theorem reachesFailure_skipPass (within : rest ⊆ entries)
    (sound : ∀ key ∈ skipped, ReachesFailure entries key) :
    ∀ key ∈ (skipPass entries root rest skipped).1, ReachesFailure entries key := by
  induction rest generalizing skipped with
  | nil => exact sound
  | cons entry rest ih =>
    have later : rest ⊆ entries := fun _ member => within (mem_cons_of_mem entry member)
    by_cases kept : entry.key ∈ skipped ∨ ∀ target ∈ entry.dependencies, target ∉ skipped
    · rw [skipPass_cons_of_kept entries root kept]
      exact ih later sound
    · push Not at kept
      obtain ⟨fresh, target, depended, gone⟩ := kept
      rw [skipPass_cons_of_dropped entries root fresh ⟨target, depended, gone⟩]
      refine ih later fun key member => ?_
      rcases mem_append.mp member with old | new
      · exact sound key old
      · obtain rfl := mem_singleton.mp new
        obtain ⟨failed, failing, path⟩ := sound target gone
        exact ⟨failed, failing, .head ⟨entry, within mem_cons_self, rfl, depended⟩ path⟩

/-- Nothing that is not skipped depends on what is skipped. -/
def Closed (entries : List Registration) (skipped : List String) : Prop :=
  ∀ entry ∈ entries, entry.key ∈ skipped ∨ ∀ target ∈ entry.dependencies, target ∉ skipped

/-- A pass that reports nothing has changed nothing, and there is nothing left to skip. -/
theorem closed_of_skipPass (quiet : (skipPass entries root rest skipped).2 = []) :
    (skipPass entries root rest skipped).1 = skipped ∧ Closed rest skipped := by
  induction rest with
  | nil => exact ⟨rfl, by simp [Closed]⟩
  | cons entry rest ih =>
    by_cases kept : entry.key ∈ skipped ∨ ∀ target ∈ entry.dependencies, target ∉ skipped
    · rw [skipPass_cons_of_kept entries root kept] at quiet ⊢
      obtain ⟨same, closed⟩ := ih quiet
      exact ⟨same, forall_mem_cons.mpr ⟨kept, closed⟩⟩
    · push Not at kept
      rw [skipPass_cons_of_dropped entries root kept.1 kept.2] at quiet
      simp at quiet

end Pass

def remaining (entries : List Registration) (skipped : List String) : List Registration :=
  entries.filter fun entry => !skipped.contains entry.key

theorem mem_remaining :
    entry ∈ remaining entries skipped ↔ entry ∈ entries ∧ entry.key ∉ skipped := by
  simp [remaining]

/-- Skipping a schema leaves fewer schemas. -/
theorem Skips.length_remaining_lt {root : String} {before : List String}
    {after : List String × List Diagnostic} (skips : Skips entries root before after)
    (some : after.2 ≠ []) :
    (remaining entries after.1).length < (remaining entries before).length := by
  obtain ⟨dropped, within, skipped, _, fresh, reported⟩ := skips
  have fewer : (remaining entries after.1).Sublist (remaining entries before) := by
    refine monotone_filter_right entries fun entry kept => ?_
    simp only [Bool.not_eq_true', contains_eq_mem, decide_eq_false_iff_not] at kept ⊢
    intro old
    refine kept ?_
    rw [skipped]
    exact mem_append_left _ old
  cases dropped with
  | nil => exact absurd (forall₂_nil_left_iff.mp reported) some
  | cons entry dropped =>
    refine Nat.lt_of_le_of_ne fewer.length_le fun same => ?_
    have old : entry ∈ remaining entries before :=
      mem_remaining.mpr ⟨within mem_cons_self, fresh _ mem_cons_self⟩
    rw [← fewer.eq_of_length same] at old
    refine (mem_remaining.mp old).2 ?_
    rw [skipped]
    exact mem_append_right _ mem_cons_self

section Dependents

variable {entries : List Registration} {root : String}

theorem skipDependents_succ (passes : Nat) (skipped : List String) :
    skipDependents entries root (passes + 1) skipped =
      if (skipPass entries root entries skipped).2 = [] then
        ((skipPass entries root entries skipped).1, [])
      else
        ((skipDependents entries root passes (skipPass entries root entries skipped).1).1,
          (skipPass entries root entries skipped).2 ++
            (skipDependents entries root passes (skipPass entries root entries skipped).1).2) := by
  simp only [skipDependents, List.isEmpty_iff]

theorem skips_skipDependents (passes : Nat) (skipped : List String) :
    Skips entries root skipped (skipDependents entries root passes skipped) := by
  induction passes generalizing skipped with
  | zero => exact Skips.refl skipped
  | succ passes ih =>
    have pass : Skips entries root skipped (skipPass entries root entries skipped) :=
      skips_skipPass (Subset.refl entries) skipped
    rw [skipDependents_succ]
    split
    next quiet => simpa [← quiet] using pass
    next => exact pass.trans (ih _)

theorem reachesFailure_skipDependents (passes : Nat)
    (sound : ∀ key ∈ skipped, ReachesFailure entries key) :
    ∀ key ∈ (skipDependents entries root passes skipped).1, ReachesFailure entries key := by
  induction passes generalizing skipped with
  | zero => exact sound
  | succ passes ih =>
    have pass : ∀ key ∈ (skipPass entries root entries skipped).1, ReachesFailure entries key :=
      reachesFailure_skipPass (Subset.refl entries) sound
    rw [skipDependents_succ]
    split
    · exact pass
    · exact ih pass

/-- As many passes as there are schemas left are enough. -/
theorem closed_skipDependents {passes : Nat} (enough : (remaining entries skipped).length ≤ passes) :
    Closed entries (skipDependents entries root passes skipped).1 := by
  induction passes generalizing skipped with
  | zero =>
    intro entry member
    by_contra open'
    have left : entry ∈ remaining entries skipped :=
      mem_remaining.mpr ⟨member, fun gone => open' (Or.inl gone)⟩
    rw [eq_nil_of_length_eq_zero (Nat.le_zero.mp enough)] at left
    cases left
  | succ passes ih =>
    rw [skipDependents_succ]
    split
    next quiet =>
      obtain ⟨same, closed⟩ := closed_of_skipPass quiet
      rw [same]
      exact closed
    next loud =>
      have fewer := (skips_skipPass (Subset.refl entries) skipped).length_remaining_lt loud
      exact ih (by omega)

end Dependents

/-! ## The registry of a run -/

section Finish

variable (entries : List Registration) (completion : List String) (root : String)

def failedKeys : List String :=
  keys (entries.filter (·.standing.isFailed))

theorem mem_failedKeys : key ∈ failedKeys entries ↔ Failed entries key := by
  simp [failedKeys, mem_keys, Failed, and_comm, and_left_comm]

theorem finish_eq :
    finish entries completion root =
      ({ entries := remaining entries
          (skipDependents entries root entries.length (failedKeys entries)).1
         completion := completion.filter fun key =>
          !(skipDependents entries root entries.length (failedKeys entries)).1.contains key
         skipped := (skipDependents entries root entries.length (failedKeys entries)).1 },
        (skipDependents entries root entries.length (failedKeys entries)).2) :=
  rfl

/-- What is skipped is exactly what reaches a failure. -/
theorem mem_skipped_iff :
    key ∈ (finish entries completion root).1.skipped ↔ ReachesFailure entries key := by
  rw [finish_eq]
  constructor
  · refine reachesFailure_skipDependents _ (fun key failed => ?_) key
    exact ⟨key, (mem_failedKeys entries).mp failed, .refl⟩
  · rintro ⟨failed, failing, path⟩
    have closed : Closed entries (skipDependents entries root entries.length
        (failedKeys entries)).1 := closed_skipDependents (length_filter_le _ _)
    induction path using Relation.ReflTransGen.head_induction_on with
    | refl =>
      have skips : Skips entries root (failedKeys entries) _ :=
        skips_skipDependents entries.length (failedKeys entries)
      obtain ⟨dropped, _, skipped, _⟩ := skips
      rw [skipped]
      exact mem_append_left _ ((mem_failedKeys entries).mpr failing)
    | head step _ gone =>
      obtain ⟨entry, member, rfl, depended⟩ := step
      exact (closed entry member).resolve_right fun none => none _ depended gone

/-- Each skipped schema that did not fail is reported once. -/
theorem finish_reports (distinct : (keys entries).Nodup) :
    ∃ dropped : List Registration,
      dropped.Perm (entries.filter fun entry =>
        (finish entries completion root).1.skipped.contains entry.key &&
          !entry.standing.isFailed) ∧
      Forall₂ (DroppedBy entries root (finish entries completion root).1.skipped) dropped
        (finish entries completion root).2 := by
  have skips : Skips entries root (failedKeys entries) _ :=
    skips_skipDependents entries.length (failedKeys entries)
  obtain ⟨dropped, within, skipped, once, fresh, reported⟩ := skips
  refine ⟨dropped, ?_, reported⟩
  refine (perm_ext_iff_of_nodup once.of_map (distinct.of_map.filter _)).mpr fun entry => ?_
  simp only [mem_filter, Bool.and_eq_true, contains_iff_mem, Bool.not_eq_true']
  rw [finish_eq]
  dsimp only
  rw [skipped, mem_append, mem_failedKeys, mem_keys]
  constructor
  · intro member
    refine ⟨within member, Or.inr ⟨entry, member, rfl⟩, ?_⟩
    by_contra failing
    refine fresh entry.key (mem_keys.mpr ⟨entry, member, rfl⟩) ((mem_failedKeys entries).mpr ?_)
    exact ⟨entry, within member, rfl, by simpa using failing⟩
  · rintro ⟨member, ⟨other, member', same, failing⟩ | ⟨other, member', same⟩, healthy⟩
    · rw [eq_of_key_eq distinct member' member same, healthy] at failing
      cases failing
    · rwa [← eq_of_key_eq distinct (within member') member same]

end Finish

end Registry

end Bindery

import Bindery.Proofs.Code.Imports
import Bindery.Proofs.Naming.Assignment
import Bindery.Proofs.Resolution.Outcome
import Bindery.Schema.Named

/-!
# The named types of a finished run

When a run is finished, the schemas that are left are done, depend on nothing
that was dropped, and stand behind the ones they mention directly.  Skipping
keeps all of this, because what is skipped is closed under dependents.

Every schema that is left becomes a named type, in the order in which the
schemas were finished.  So the targets of a schema lead to named types, and the
direct ones to earlier named types.
-/

namespace Bindery

open List Naming Registry

variable {sources : Sources} {findings : Findings} {registry : Registry}

namespace Registry

/-- What holds of the registry of a finished run. -/
structure Finished (registry : Registry) : Prop where
  distinct : (keys registry.entries).Nodup
  once : registry.completion.Nodup
  completed : ∀ key, key ∈ registry.completion ↔ Done registry.entries key
  closed : ∀ entry ∈ registry.entries, ∀ node, entry.standing = .done node →
    node.mentions true ⊆ registry.completion
  ordered : ∀ before key after, registry.completion = before ++ key :: after →
    ∀ entry ∈ registry.entries, entry.key = key → ∀ node, entry.standing = .done node →
      node.mentions false ⊆ before

/-! ## Finishing -/

variable {entry : Registration} {key : String}

section Finish

variable {entries : List Registration} {completion : List String} {root : String}

theorem mem_entries_finish : entry ∈ (finish entries completion root).1.entries ↔
      entry ∈ entries ∧ ¬ReachesFailure entries entry.key := by
  rw [← mem_skipped_iff entries completion root, finish_eq]
  exact mem_remaining

theorem completion_finish :
    (finish entries completion root).1.completion =
      completion.filter fun key => !(finish entries completion root).1.skipped.contains key :=
  rfl

theorem mem_completion_finish : key ∈ (finish entries completion root).1.completion ↔
      key ∈ completion ∧ ¬ReachesFailure entries key := by
  rw [completion_finish, mem_filter, ← mem_skipped_iff entries completion root]
  simp

/-- A schema reaches every failure that one of its targets reaches. -/
theorem ReachesFailure.of_target (member : entry ∈ entries) {node : Node}
    (done : entry.standing = .done node) {target : String} (mentioned : target ∈ node.mentions true)
    (reaches : ReachesFailure entries target) : ReachesFailure entries entry.key := by
  obtain ⟨failed, failing, path⟩ := reaches
  refine ⟨failed, failing, .head ⟨entry, member, rfl, ?_⟩ path⟩
  simpa [Registration.dependencies, done, Standing.node?, Node.targets] using mentioned

theorem ReachesFailure.of_failed (failed : Failed entries key) : ReachesFailure entries key :=
  ⟨key, failed, .refl⟩

theorem finished_finish (sound : findings.Sound sources)
    (settled : ∀ entry ∈ findings.entries, entry.standing.isPending = false) (root : String) :
    (finish findings.entries findings.completion root).1.Finished where
  distinct := by
    rw [finish_eq]
    exact sound.distinct.sublist (filter_sublist.map _)
  once := by
    rw [completion_finish]
    exact sound.once.sublist filter_sublist
  completed := by
    intro key
    rw [mem_completion_finish, sound.completed]
    constructor
    · rintro ⟨⟨entry, member, rfl, node, done⟩, kept⟩
      exact ⟨entry, mem_entries_finish.mpr ⟨member, kept⟩, rfl, node, done⟩
    · rintro ⟨entry, member, rfl, node, done⟩
      obtain ⟨old, kept⟩ := mem_entries_finish.mp member
      exact ⟨⟨entry, old, rfl, node, done⟩, kept⟩
  closed := by
    intro entry member node done target mentioned
    obtain ⟨old, kept⟩ := mem_entries_finish.mp member
    have live : ¬ReachesFailure findings.entries target :=
      fun reaches => kept (.of_target old done mentioned reaches)
    obtain ⟨other, member', rfl⟩ := mem_keys.mp (sound.closed entry old node done target mentioned)
    have finished : Done findings.entries other.key :=
      (settled_iff.mp ⟨other, member', rfl, settled other member'⟩).resolve_right
        fun failed => live (.of_failed failed)
    exact mem_completion_finish.mpr ⟨(sound.completed _).mpr finished, live⟩
  ordered := by
    intro before key after order entry member same node done target mentioned
    obtain ⟨old, kept⟩ := mem_entries_finish.mp member
    -- What stands before the schema now is what stood before it, without what is skipped.
    rw [completion_finish, filter_eq_append_iff] at order
    obtain ⟨front, rest, split, rfl, cut⟩ := order
    obtain ⟨between, behind, rfl, dropped, _⟩ := filter_eq_cons_iff.mp cut
    rw [← append_assoc] at split
    have live : ¬ReachesFailure findings.entries target := fun reaches =>
      kept (.of_target old done (node.mentions_direct_subset mentioned) reaches)
    have earlier : target ∈ front ++ between :=
      (sound.ordered _ key _ split entry old same node done target mentioned).resolve_right
        fun failed => live (.of_failed failed)
    have unskipped : target ∉ (finish findings.entries findings.completion root).1.skipped :=
      fun skipped => live ((mem_skipped_iff ..).mp skipped)
    rcases mem_append.mp earlier with here | there
    · exact mem_filter.mpr ⟨here, by simpa using unskipped⟩
    · exact absurd (by simpa using unskipped) (dropped target there)

end Finish

/-! ## Final names -/

def finalNames (registry : Registry) : List (String × String) :=
  (assignNames registry.proposals).1

theorem keys_finalNames (registry : Registry) :
    registry.finalNames.map Prod.fst = keys registry.entries := by
  rw [finalNames, keys_assignNames, proposals, map_map]
  rfl

theorem lookup_finalNames (registered : key ∈ keys registry.entries) :
    registry.finalNames.lookup key = some (targetName registry.finalNames key) ∧
      (key, targetName registry.finalNames key) ∈ registry.finalNames := by
  rw [← keys_finalNames, mem_map] at registered
  obtain ⟨named, member, rfl⟩ := registered
  have found : (registry.finalNames.lookup named.1).isSome = true :=
    lookup_isSome_iff.mpr ⟨named, member, BEq.rfl⟩
  obtain ⟨name, looked⟩ := Option.isSome_iff_exists.mp found
  rw [targetName, looked]
  exact ⟨rfl, mem_of_lookup looked⟩

/-- No two registered schemas get names with one module. -/
theorem snakeCase_targetName_injective {first second : String}
    (registered : first ∈ keys registry.entries) (registered' : second ∈ keys registry.entries)
    (same : snakeCase (targetName registry.finalNames first) =
      snakeCase (targetName registry.finalNames second)) : first = second := by
  have distinct := nodup_modules_assignNames registry.proposals
  rw [map_map] at distinct
  have injective := inj_on_of_nodup_map distinct (lookup_finalNames registered).2
    (lookup_finalNames registered').2
  simp only [Function.comp_apply] at injective
  exact congrArg Prod.fst (injective same)

/-! ## Named types -/

def finalTypes (registry : Registry) : List NamedType :=
  registry.namedTypes registry.finalNames

def finalType (registry : Registry) (key : String) (node : Node) : NamedType where
  name := targetName registry.finalNames key
  module := snakeCase (targetName registry.finalNames key)
  node := node.rename registry.finalNames
  location := key

theorem map_filterMap_eq_self {α β : Type} {view : α → Option β} {back : β → α} {items : List α}
    (each : ∀ item ∈ items, ∃ image, view item = some image ∧ back image = item) :
    (items.filterMap view).map back = items := by
  induction items with
  | nil => rfl
  | cons item rest ih =>
    obtain ⟨image, seen, same⟩ := each item mem_cons_self
    rw [filterMap_cons_some seen, map_cons, same,
      ih fun other member => each other (mem_cons_of_mem item member)]

namespace Finished

variable {registry : Registry}

variable (finished : registry.Finished)

include finished

theorem namedType?_eq (member : entry ∈ registry.entries) {node : Node}
    (done : entry.standing = .done node) : registry.namedType? registry.finalNames entry.key =
      some (registry.finalType entry.key node) := by
  have registered : entry.key ∈ keys registry.entries := mem_keys.mpr ⟨entry, member, rfl⟩
  have found : registry.get? entry.key = some entry := by
    cases result : registry.get? entry.key with
    | none => exact absurd registered (find?_eq_none.mp result)
    | some other =>
      obtain ⟨member', same⟩ := find?_eq_some result
      rw [eq_of_key_eq finished.distinct member' member same]
  rw [namedType?, found, (lookup_finalNames registered).1]
  simp [done, Standing.node?, finalType]

/-- Every schema that is left and no other becomes a named type, in the order of completion. -/
theorem locations : registry.finalTypes.map (·.location) = registry.completion := by
  refine map_filterMap_eq_self fun key completed => ?_
  obtain ⟨entry, member, rfl, node, done⟩ := (finished.completed key).mp completed
  exact ⟨_, finished.namedType?_eq member done, rfl⟩

variable {type : NamedType}

theorem eq_finalType (member : type ∈ registry.finalTypes) :
    ∃ entry ∈ registry.entries, ∃ node, entry.standing = .done node ∧
      type = registry.finalType entry.key node := by
  obtain ⟨key, completed, named⟩ := mem_filterMap.mp member
  obtain ⟨entry, member, rfl, node, done⟩ := (finished.completed key).mp completed
  refine ⟨entry, member, node, done, ?_⟩
  rw [finished.namedType?_eq member done] at named
  exact (Option.some.inj named).symm

theorem name_eq (member : type ∈ registry.finalTypes) :
    type.name = targetName registry.finalNames type.location := by
  obtain ⟨entry, _, node, _, rfl⟩ := finished.eq_finalType member
  rfl

theorem module_eq (member : type ∈ registry.finalTypes) : type.module = snakeCase type.name := by
  obtain ⟨entry, _, node, _, rfl⟩ := finished.eq_finalType member
  simp only [finalType]

theorem nodup_modules : (registry.finalTypes.map (·.module)).Nodup := by
  have modules : registry.finalTypes.map (·.module) =
      registry.completion.map fun key =>
        snakeCase (targetName registry.finalNames key) := by
    rw [← finished.locations, map_map]
    refine map_congr_left fun type member => ?_
    rw [finished.module_eq member, finished.name_eq member, Function.comp_apply]
  have registered {key : String} (completed : key ∈ registry.completion) :
      key ∈ keys registry.entries := by
    obtain ⟨entry, member, same, _⟩ := (finished.completed key).mp completed
    exact mem_keys.mpr ⟨entry, member, same⟩
  rw [modules]
  exact finished.once.map_on fun first member second member' same =>
    snakeCase_targetName_injective (registered member) (registered member') same

theorem nodup_names : (registry.finalTypes.map (·.name)).Nodup := by
  have modules := finished.nodup_modules
  have same : registry.finalTypes.map (·.module) =
      (registry.finalTypes.map (·.name)).map snakeCase := by
    rw [map_map]
    refine map_congr_left fun type member => ?_
    rw [finished.module_eq member, Function.comp_apply]
  rw [same] at modules
  exact modules.of_map _

/-- A named type has the name that was assigned to its schema. -/
theorem mem_finalNames (member : type ∈ registry.finalTypes) :
    (type.location, type.name) ∈ registry.finalNames := by
  obtain ⟨entry, inside, node, -, rfl⟩ := finished.eq_finalType member
  exact (lookup_finalNames (mem_keys.mpr ⟨entry, inside, rfl⟩)).2

theorem isUsable_module (member : type ∈ registry.finalTypes) : IsUsable type.module := by
  have noKeyword := (not_reserved_nor_keyword_assignNames (finished.mem_finalNames member)).2
  rw [finished.module_eq member]
  exact (isModule_snakeCase type.name).isUsable noKeyword

/-- The final name of a completed schema is the name of a named type. -/
theorem exists_named (completed : key ∈ registry.completion) :
    ∃ type ∈ registry.finalTypes, type.name = targetName registry.finalNames key := by
  rw [← finished.locations, mem_map] at completed
  obtain ⟨type, member, rfl⟩ := completed
  exact ⟨type, member, finished.name_eq member⟩

/-- A named type mentions named types only. -/
theorem mentions_named (member : type ∈ registry.finalTypes) {name : String}
    (mentioned : name ∈ type.node.mentions true) :
    ∃ target ∈ registry.finalTypes, target.name = name := by
  obtain ⟨entry, registered, node, done, rfl⟩ := finished.eq_finalType member
  rw [finalType, Node.mentions_rename, mem_map] at mentioned
  obtain ⟨target, inside, rfl⟩ := mentioned
  exact finished.exists_named (finished.closed entry registered node done inside)

/-- What a named type mentions directly are earlier named types. -/
theorem direct_precedes {index : Nat} (here : registry.finalTypes[index]? = some type)
    {name : String} (direct : name ∈ type.node.mentions false) :
    ∃ earlier target, earlier < index ∧ registry.finalTypes[earlier]? = some target ∧
      target.name = name := by
  have position (place : Nat) :
      registry.completion[place]? = registry.finalTypes[place]?.map (·.location) := by
    rw [← finished.locations, List.getElem?_map]
  obtain ⟨entry, registered, node, done, rfl⟩ :=
    finished.eq_finalType (List.mem_of_getElem? here)
  have completed : registry.completion[index]? = some entry.key := by
    rw [position, here]
    rfl
  have order : registry.completion =
      registry.completion.take index ++ entry.key :: registry.completion.drop (index + 1) := by
    obtain ⟨within, same⟩ := List.getElem?_eq_some_iff.mp completed
    rw [← same, List.getElem_cons_drop, List.take_append_drop]
  rw [finalType, Node.mentions_rename, List.mem_map] at direct
  obtain ⟨target, inside, rfl⟩ := direct
  have before := finished.ordered _ _ _ order entry registered rfl node done inside
  obtain ⟨earlier, within, same⟩ := List.mem_take_iff_getElem.mp before
  have found : registry.completion[earlier]? = some target := by
    rw [← same]
    exact List.getElem?_eq_getElem _
  rw [position, Option.map_eq_some_iff] at found
  obtain ⟨type, there, rfl⟩ := found
  exact ⟨earlier, type, by omega, there, finished.name_eq (List.mem_of_getElem? there)⟩

end Finished

end Registry

namespace Resolving

/-- What is left when a run is finished after any sequence of requests. -/
theorem finished_of_run {calls : List Call}
    (ran : (perform sources calls >>= fun _ => finish sources).start (Findings.start sources) =
      (.ok registry, findings)) : registry.Finished ∧
      (∀ key, key ∈ registry.completion ↔
        Done findings.entries key ∧ key ∉ registry.skipped) ∧
      ∀ key ∈ keys findings.entries, key ∉ registry.skipped →
        key ∈ registry.completion := by
  obtain ⟨_, middle, performed, ended⟩ := Run.start_bind_ok ran
  rw [start_finish] at ended
  cases ended
  obtain ⟨sound, settled⟩ := settled_of_perform performed
  refine ⟨finished_finish sound settled _, fun key => ?_, ?_⟩
  · rw [mem_completion_finish, mem_skipped_iff, sound.completed]
  · intro key registered kept
    rw [mem_skipped_iff] at kept
    obtain ⟨entry, member, rfl⟩ := mem_keys.mp registered
    have read := settled_iff.mp ⟨entry, member, rfl, settled entry member⟩
    refine mem_completion_finish.mpr ⟨(sound.completed _).mpr ?_, kept⟩
    exact read.resolve_right fun failed => kept (.of_failed failed)

end Resolving

end Bindery

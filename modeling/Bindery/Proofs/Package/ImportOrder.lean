import Bindery.Proofs.Code.Records
import Bindery.Generation
import Bindery.Proofs.Schema.Named
import Mathlib.Logic.Relation

/-!
# The order of imports

The units of named types are emitted in an order in which every unit stands
behind the ones it imports.  The order of named types is the order in which
their schemas were finished, code imports only what its schema mentions
directly, and such a mention was finished before.

Since no two types share a module, an import always goes from a module to the
module of an earlier type.  So no module imports itself, not even through
others, and the units can be loaded in any order.
-/

namespace Bindery

open Code List

/-! ## Compiled types -/

theorem Journaled.compiling_gives {α : Type} {step : Compilation α} {fact : α → Prop}
    (gives : Run.Gives step fact) : Run.Gives (Journaled.compiling step) fact := by
  refine .bind Run.Gives.modify fun _ _ => ?_
  exact .ofExcept (fun value returned => gives.returns [] value _ (Prod.ext returned rfl))
    (gives.stops [])

theorem Journaled.compiling_returns {α : Type} {step : Compilation α} {fact : α → Prop}
    (returns : Run.Returns step fact) : Run.Returns (Journaled.compiling step) fact := by
  refine .after _ fun _ => ?_
  intro state value later ran
  have ended : (step.start []).1 = .ok value := congrArg Prod.fst ran
  exact returns [] value _ (Prod.ext ended rfl)

namespace Package

/-- Compiled types whose code mentions and imports no more than their schemas do. -/
def Compiled (types : List NamedType) (compiled : List (NamedType × TypeFragment)) : Prop :=
  compiled.map (·.1) = types ∧
    ∀ type ∈ compiled,
      type.2.Within (type.1.node.mentions true) (type.1.node.mentions false)

theorem compiled_of_forall₂ {types : List NamedType} {compiled : List (NamedType × TypeFragment)}
    (each : Forall₂ (fun type result => result.1 = type ∧
      result.2.Within (type.node.mentions true) (type.node.mentions false)) types compiled) :
    Compiled types compiled := by
  induction each with
  | nil => exact ⟨rfl, by simp⟩
  | cons first _ ih =>
    obtain ⟨rfl, within⟩ := first
    obtain ⟨types, others⟩ := ih
    exact ⟨by rw [map_cons, types], forall_mem_cons.mpr ⟨within, others⟩⟩

theorem compileTypes_gives (survey : Survey) (settings : Settings) :
    Run.Gives (survey.compileTypes settings) (Compiled survey.types) := by
  refine Journaled.compiling_gives (.mono (.mapM fun type _ => ?_)
    fun _ => compiled_of_forall₂)
  exact .bind (faithful _ false type.node type.name) fun _ within =>
    .pure ⟨rfl, within⟩

/-- Every name that a type imports is the name of an earlier type. -/
def ImportsPrecede (compiled : List (NamedType × TypeFragment)) : Prop :=
  ∀ (index : Nat) (type : NamedType × TypeFragment), compiled[index]? = some type →
    ∀ name ∈ type.2.imports, ∃ (earlier : Nat) (target : NamedType × TypeFragment),
      earlier < index ∧ compiled[earlier]? = some target ∧ target.1.name = name

/-- The emitted unit of one module imports a name from another module. -/
def ModuleImports (compiled : List (NamedType × TypeFragment)) (importer imported : String) :
    Prop :=
  ∃ type ∈ compiled, type.1.module = importer ∧
    ∃ name, (imported, name) ∈ schemaImports (modulesOf compiled) type.2.imports

theorem mem_schemaImports {modules : Modules} {names : List String} {module name : String} :
    (module, name) ∈ schemaImports modules names ↔
      name ∈ names ∧ modules.lookup name = some module := by
  simp only [schemaImports, mem_mergeSort, mem_filterMap, mem_eraseDups,
    Option.map_eq_some_iff, Prod.mk.injEq]
  constructor
  · rintro ⟨_, member, _, found, rfl, rfl⟩
    exact ⟨member, found⟩
  · rintro ⟨member, found⟩
    exact ⟨name, member, module, found, rfl, rfl⟩

section Order

variable {compiled : List (NamedType × TypeFragment)}

theorem lookup_modulesOf (names : (compiled.map (·.1.name)).Nodup)
    {type : NamedType × TypeFragment} (member : type ∈ compiled) :
    (modulesOf compiled).lookup type.1.name = some type.1.module := by
  refine lookup_of_mem ?_ (List.mem_map_of_mem member)
  rw [modulesOf, List.map_map]
  exact names

variable (precede : ImportsPrecede compiled) (names : (compiled.map (·.1.name)).Nodup)
  (modules : (compiled.map (·.1.module)).Nodup)

include precede names modules

/-- An import leads to an earlier module. -/
theorem ModuleImports.precedes {importer imported : String}
    (imports : ModuleImports compiled importer imported) {index : Nat}
    {type : NamedType × TypeFragment} (here : compiled[index]? = some type)
    (same : type.1.module = importer) :
    ∃ (earlier : Nat) (target : NamedType × TypeFragment), earlier < index ∧
      compiled[earlier]? = some target ∧ target.1.module = imported := by
  obtain ⟨other, member, rfl, name, imported⟩ := imports
  obtain rfl := inj_on_of_nodup_map modules (mem_of_getElem? here) member same
  obtain ⟨inside, found⟩ := mem_schemaImports.mp imported
  obtain ⟨earlier, target, before, there, rfl⟩ := precede index type here name inside
  rw [lookup_modulesOf names (mem_of_getElem? there)] at found
  exact ⟨earlier, target, before, there, Option.some.inj found⟩

/-- No module imports itself, not even through others. -/
theorem ImportsPrecede.acyclic (module : String) :
    ¬Relation.TransGen (ModuleImports compiled) module module := by
  -- A path of imports leads to ever earlier places, so a cycle would lead before its start.
  have run {importer imported : String}
      (path : Relation.TransGen (ModuleImports compiled) importer imported) :
      ∀ (index : Nat) (type : NamedType × TypeFragment), compiled[index]? = some type →
        type.1.module = importer → ∃ (earlier : Nat) (target : NamedType × TypeFragment),
          earlier < index ∧ compiled[earlier]? = some target ∧ target.1.module = imported := by
    induction path with
    | single imports => exact fun _ _ here same => imports.precedes precede names modules here same
    | tail _ imports ih =>
      intro index type here same
      obtain ⟨middle, between, before, there, passed⟩ := ih index type here same
      obtain ⟨earlier, target, before', last, ended⟩ :=
        imports.precedes precede names modules there passed
      exact ⟨earlier, target, before'.trans before, last, ended⟩
  intro cycle
  obtain ⟨type, member, same⟩ : ∃ type ∈ compiled, type.1.module = module := by
    obtain ⟨_, ⟨type, member, same, _⟩, _⟩ := Relation.TransGen.head'_iff.mp cycle
    exact ⟨type, member, same⟩
  obtain ⟨index, here⟩ := List.mem_iff_getElem?.mp member
  obtain ⟨earlier, target, before, there, again⟩ := run cycle index type here same
  have position (place : Nat) :
      (compiled.map (·.1.module))[place]? = compiled[place]?.map (·.1.module) :=
    List.getElem?_map
  have within : earlier < (compiled.map (·.1.module)).length := by
    rw [List.length_map]
    exact (List.getElem?_eq_some_iff.mp there).1
  have equal : earlier = index := by
    refine (List.getElem?_inj within modules).mp ?_
    rw [position, position, there, here, Option.map_some, Option.map_some, again, same]
  omega

end Order

/-- The code of the named types of a finished run imports earlier named types only. -/
theorem importsPrecede_of_finished {registry : Registry} (finished : registry.Finished)
    {compiled : List (NamedType × TypeFragment)} (types : Compiled registry.finalTypes compiled) :
    ImportsPrecede compiled := by
  obtain ⟨same, within⟩ := types
  have position (place : Nat) :
      registry.finalTypes[place]? = compiled[place]?.map (·.1) := by
    rw [← same, getElem?_map]
  intro index type here name imported
  have direct := (within type (mem_of_getElem? here)).imports imported
  obtain ⟨earlier, target, before, there, rfl⟩ :=
    finished.direct_precedes (by rw [position, here]; rfl) direct
  rw [position, Option.map_eq_some_iff] at there
  obtain ⟨result, there, rfl⟩ := there
  exact ⟨earlier, result, before, there, rfl⟩

end Package

/--
After any sequence of requests the run is finished, the types that are left are
named, and they are compiled.  Then each type imports earlier types only, no
module imports itself through others, and every schema that was read and is not
skipped stands in the order of completion exactly once.
-/
theorem Survey.imports_precede (sources : Sources) (calls : List Resolving.Call)
    (document : NormalDocument) (operations : List Operation) (fetchCount : Nat)
    (settings : Settings) (registry : Registry) (findings : Findings)
    (compiled : List (NamedType × TypeFragment)) (journal later : Journal)
    (resolved : (Resolving.perform sources calls >>= fun _ => Resolving.finish sources).start
      (Findings.start sources) = (.ok registry, findings))
    (compiles : ((Survey.name document operations registry fetchCount).1.compileTypes
      settings).start journal = (.ok compiled, later)) :
    compiled.map (·.1) = (Survey.name document operations registry fetchCount).1.types ∧
    compiled.map (·.1.location) = registry.completion ∧
    Package.ImportsPrecede compiled ∧
    (∀ module, ¬Relation.TransGen (Package.ModuleImports compiled) module module) ∧
    registry.completion.Nodup ∧
    ∀ key, registry.completion.count key = 1 ↔
      Registry.Done findings.entries key ∧ key ∉ registry.skipped := by
  obtain ⟨finished, completion, _⟩ := Resolving.finished_of_run resolved
  have types : Package.Compiled registry.finalTypes compiled :=
    (Package.compileTypes_gives _ settings).returns journal compiled later compiles
  have viewed (view : NamedType → String) :
      (compiled.map fun type => view type.1) = registry.finalTypes.map view := by
    rw [← types.1, List.map_map]
    rfl
  have names : (compiled.map (·.1.name)).Nodup := by
    rw [viewed (·.name)]
    exact finished.nodup_names
  have modules : (compiled.map (·.1.module)).Nodup := by
    rw [viewed (·.module)]
    exact finished.nodup_modules
  have precede := Package.importsPrecede_of_finished finished types
  refine ⟨types.1, ?_, precede, precede.acyclic names modules, finished.once, fun key => ?_⟩
  · exact (viewed (·.location)).trans finished.locations
  · rw [← completion]
    constructor
    · intro once
      exact List.count_pos_iff.mp (by omega)
    · exact List.count_eq_one_of_mem finished.once

/-- A document with an operation that refers to the first of two schemas, which are references to
each other. -/
def mutualDocument : NormalDocument where
  location := "/a"
  dialect := .v31
  root :=
    [(.str "openapi", .str "3.1"), (.str "info", .map []),
     (.str "paths", .map [(.str "p", .map [(.str "get", .map [(.str "responses", .map
       [(.str "200", .map [(.str "content", .map [(.str "j", .map
         [(.str "schema", .map [(.str "$ref", .str "#k")])])])])])])])]),
     (.str "k", .map [(.str "$ref", .str "#l")]), (.str "l", .map [(.str "$ref", .str "#k")])]

def mutualLibrary : Library where
  documents := [("/a", .ok mutualDocument.tree)]

def mutualSources : Sources :=
  Sources.of mutualLibrary [] mutualDocument

def mutualSettings : Settings where
  input := "/a"
  output := { root := "", names := [] }

/-- What a reference to the first schema leaves: the second one is read within the first. -/
def mutualRegistry : Registry where
  entries :=
    [{ key := "/a#k", location := "/a", proposed := "k"
       standing := .done (.composition {} .allOf [.reference {} "/a#l" false] none) },
     { key := "/a#l", location := "/a", proposed := "l"
       standing := .done (.composition {} .allOf [.reference {} "/a#k" true] none) }]
  completion := ["/a#l", "/a#k"]

theorem Survey.imports_precede_of_mutual :
    ∃ findings compiled later,
      (Resolving.perform mutualSources [.reference "#k" "/a"] >>= fun _ =>
        Resolving.finish mutualSources).start (Findings.start mutualSources) =
          (.ok mutualRegistry, findings) ∧
      ((Survey.name mutualDocument [] mutualRegistry 0).1.compileTypes
        mutualSettings).start {} = (.ok compiled, later) ∧
      (compiled.map fun type => (type.1.name, type.2.imports)) = [("L", []), ("K", ["L"])] ∧
      Package.ImportsPrecede compiled ∧
      ∀ module, ¬Relation.TransGen (Package.ModuleImports compiled) module module := by
  have resolved : (Resolving.perform mutualSources [.reference "#k" "/a"] >>= fun _ =>
      Resolving.finish mutualSources).start (Findings.start mutualSources) =
        (.ok mutualRegistry, _) := Run.start_of_fst (by decide +kernel)
  have compiles := Run.start_returned
    ((Survey.name mutualDocument [] mutualRegistry 0).1.compileTypes mutualSettings) {}
    (by decide +kernel)
  have ordered := Survey.imports_precede mutualSources [.reference "#k" "/a"] mutualDocument [] 0
    mutualSettings mutualRegistry _ _ {} _ resolved compiles
  exact ⟨_, _, _, resolved, compiles, by decide +kernel, ordered.2.2.1, ordered.2.2.2.1⟩

end Bindery

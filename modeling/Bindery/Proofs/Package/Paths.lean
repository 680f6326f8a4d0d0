import Mathlib
import Bindery.Proofs.Operation.Ids
import Bindery.Proofs.Package.Dependencies

/-!
# The paths of a package

Every unit of a package has a path of its own, so none is written in the place of
another.  The modules of the types are distinct because their names were assigned
so, and those of the operations because their ids were given so.  The units that
every package has start with an underscore, which no other module does.  All
paths are in lower case, so they stay distinct where case does not count.
-/

namespace Bindery

open Code Naming List

namespace Package

/-! ## The layout of a package -/

def modulePath (directory module : String) : String :=
  directory ++ module ++ ".py"

/-- The paths of the units of a package with these modules of types and operations. -/
def unitPaths (types operations : List String) : List String :=
  ["_runtime.py", "_support.py"] ++ types.map (modulePath "schemas/") ++
    operations.map (modulePath "operations/") ++
    ["schemas/__init__.py", "operations/__init__.py", "__init__.py"]

theorem map_path_emit {document : NormalDocument} {types : List (NamedType × TypeFragment)}
    {bindings : List Binding} {server : Bool} {units : List SourceUnit}
    (emitted : emit document types bindings server = .ok units) :
    units.map (·.path) = unitPaths (types.map (·.1.module)) (bindings.map (·.module)) := by
  simp only [emit] at emitted
  split at emitted
  next => cases emitted
  next =>
    obtain ⟨title, -, emitted⟩ := ok_of_bind emitted
    obtain ⟨servers, -, emitted⟩ := ok_of_bind emitted
    obtain ⟨version, -, emitted⟩ := ok_of_bind emitted
    cases emitted
    simp only [unitPaths, map_append, map_map]
    rfl

theorem modulePath_injective (directory : String) : Function.Injective (modulePath directory) := by
  intro first second same
  simpa [modulePath] using same

/-- The paths that every package has. -/
def fixedPaths : List String :=
  ["_runtime.py", "_support.py", "schemas/__init__.py", "operations/__init__.py", "__init__.py"]

theorem unitPaths_perm (types operations : List String) :
    (unitPaths types operations).Perm (fixedPaths ++
      (types.map (modulePath "schemas/") ++ operations.map (modulePath "operations/"))) := by
  have moved : (types.map (modulePath "schemas/") ++ operations.map (modulePath "operations/") ++
      ["schemas/__init__.py", "operations/__init__.py", "__init__.py"]).Perm
      (["schemas/__init__.py", "operations/__init__.py", "__init__.py"] ++
        (types.map (modulePath "schemas/") ++ operations.map (modulePath "operations/"))) :=
    perm_append_comm
  simpa [unitPaths, fixedPaths] using moved

def directories : List String := ["schemas/", "operations/"]

variable {directory module : String} {types operations : List String}

/-- A path that every package has is not the path of a usable module. -/
theorem modulePath_notMem_fixedPaths (known : directory ∈ directories) (usable : IsUsable module) :
    modulePath directory module ∉ fixedPaths := by
  have underscored : ∀ directory ∈ directories, ∀ path ∈ fixedPaths,
      directory.toList <+: path.toList →
        (path.toList.drop directory.toList.length).head? = some '_' := by
    decide
  intro isFixed
  have characters : (modulePath directory module).toList =
      directory.toList ++ (module.toList ++ ".py".toList) := by
    simp [modulePath]
  have filled : module.toList ≠ [] := by
    intro empty
    have identifier := usable.identifier
    rw [isIdentifier, empty] at identifier
    cases identifier
  have head := underscored directory known _ isFixed ⟨_, characters.symm⟩
  rw [characters, List.drop_left, List.head?_append_of_ne_nil _ filled] at head
  exact usable.head head

theorem nodup_unitPaths (distinct : types.Nodup) (distinct' : operations.Nodup)
    (usable : ∀ module ∈ types, IsUsable module) (usable' : ∀ module ∈ operations, IsUsable module) :
    (unitPaths types operations).Nodup := by
  rw [(unitPaths_perm types operations).nodup_iff, nodup_append', nodup_append']
  refine ⟨by decide, ⟨?_, ?_, ?_⟩, ?_⟩
  · exact distinct.map (modulePath_injective _)
  · exact distinct'.map (modulePath_injective _)
  · intro path ofType ofOperation
    obtain ⟨type, -, rfl⟩ := mem_map.mp ofType
    obtain ⟨operation, -, same⟩ := mem_map.mp ofOperation
    have starts := congrArg (·.toList.head?) same
    simp [modulePath] at starts
  · intro path isFixed ofModule
    rcases mem_append.mp ofModule with ofType | ofOperation
    · obtain ⟨module, member, rfl⟩ := mem_map.mp ofType
      exact modulePath_notMem_fixedPaths (by decide) (usable module member) isFixed
    · obtain ⟨module, member, rfl⟩ := mem_map.mp ofOperation
      exact modulePath_notMem_fixedPaths (by decide) (usable' module member) isFixed

theorem lower_modulePath (known : directory ∈ directories) (usable : IsUsable module) :
    Text.lower (modulePath directory module) = modulePath directory module := by
  have plain : ∀ directory ∈ directories, directory.toList.all Text.isPlain = true := by decide
  apply Text.lower_eq_self
  simp only [modulePath, String.toList_append, all_append, usable.plain,
    plain directory known, Bool.true_and]
  decide

theorem lower_unitPaths (usable : ∀ module ∈ types, IsUsable module)
    (usable' : ∀ module ∈ operations, IsUsable module) {path : String}
    (member : path ∈ unitPaths types operations) : Text.lower path = path := by
  rcases mem_append.mp ((unitPaths_perm types operations).mem_iff.mp member) with
    isFixed | ofModule
  · have fixedPlain : ∀ path ∈ fixedPaths, path.toList.all Text.isPlain = true := by decide
    exact Text.lower_eq_self (fixedPlain path isFixed)
  · rcases mem_append.mp ofModule with ofType | ofOperation
    · obtain ⟨module, inside, rfl⟩ := mem_map.mp ofType
      exact lower_modulePath (by decide) (usable module inside)
    · obtain ⟨module, inside, rfl⟩ := mem_map.mp ofOperation
      exact lower_modulePath (by decide) (usable' module inside)

end Package

/-! ## Surveys -/

namespace Survey

theorem distinct_name {sources : Sources} {operations : List Operation} {registry : Registry}
    {findings : Findings}
    (ran : (resolve sources).start (Findings.start sources) =
      (.ok (operations, registry), findings)) (document : NormalDocument) (fetchCount : Nat) :
    Analysis.Distinct
      ((name document operations registry fetchCount).1.operations.map (·.id)) := by
  obtain ⟨_, first, -, ran⟩ := Run.start_bind_ok ran
  obtain ⟨_, second, -, ran⟩ := Run.start_bind_ok ran
  obtain ⟨_, third, analyzed, ran⟩ := Run.start_bind_ok ran
  obtain ⟨_, fourth, -, ran⟩ := Run.start_bind_ok ran
  cases ran
  have distinct := Analysis.distinct_operations sources analyzed
  have kept : ((name document operations registry fetchCount).1.operations.map (·.id)).Sublist
      (operations.map (·.id)) := by
    have ids : (name document operations registry fetchCount).1.operations.map (·.id) =
        (Operation.dropDependents registry.skipped operations).1.map (·.id) :=
      map_map
    rw [ids, Operation.dropDependents_eq_filter]
    exact filter_sublist.map _
  exact distinct.sublist (kept.map snakeCase)

theorem bind_modules (survey : Survey) (settings : Settings) (authHeaders : List String) :
    Run.Returns (survey.bind settings authHeaders) fun bindings =>
      bindings.map (·.module) = (survey.operations.map (·.id)).map Binding.moduleName := by
  apply Journaled.compiling_returns
  intro state bindings later ran
  have each := Run.Returns.mapM (fun operation _ =>
    Binding.ofOperation_module (survey.scope settings) (surface settings) authHeaders operation)
    state bindings later ran
  clear ran
  generalize survey.operations = operations at each
  induction each with
  | nil => rfl
  | cons first _ ih => simp only [map_cons, first, ih]

end Survey

/-- Whatever texts a document uses as names, ids and paths, every module of its package can be
imported, and every unit has a path of its own, also where case does not count. -/
theorem Survey.paths_distinct (library : Library) (working : List String) (input : String)
    (journal surveyed : Journal) (survey : Survey) (settings : Settings)
    (authHeaders : List String) (compiled : List (NamedType × TypeFragment))
    (bindings : List Binding) (first second third fourth : Journal)
    (ran : (Survey.ofInput library working input).start journal = (.ok survey, surveyed))
    (compiles : (survey.compileTypes settings).start first = (.ok compiled, second))
    (binds : (survey.bind settings authHeaders).start third = (.ok bindings, fourth)) :
    (∀ module ∈ compiled.map (·.1.module) ++ bindings.map (·.module),
      isIdentifier module = true ∧ isKeyword module = false) ∧
    ∀ document server units, Package.emit document compiled bindings server = .ok units →
      units.map (·.path) =
        Package.unitPaths (compiled.map (·.1.module)) (bindings.map (·.module)) ∧
      (units.map fun unit => Text.lower unit.path).Nodup := by
  obtain ⟨document, operations, registry, findings, resolved, made⟩ := Survey.ofInput_ran ran
  have closed : survey.Closed registry :=
    made ▸ Survey.closed_name resolved document findings.cache.fetchCount
  have types : compiled.map (·.1.module) = registry.finalTypes.map (·.module) := by
    have same := (Package.compileTypes_gives survey settings).returns first compiled second compiles
    rw [← closed.types, ← same.1, List.map_map]
    rfl
  have modules := Survey.bind_modules survey settings authHeaders third bindings fourth binds
  have distinct : Analysis.Distinct (survey.operations.map (·.id)) :=
    made ▸ Survey.distinct_name resolved document findings.cache.fetchCount
  have usable : ∀ module ∈ compiled.map (·.1.module), IsUsable module := by
    rw [types]
    intro module member
    obtain ⟨type, inside, rfl⟩ := List.mem_map.mp member
    exact closed.finished.isUsable_module inside
  have usable' : ∀ module ∈ bindings.map (·.module), IsUsable module := by
    rw [modules]
    intro module member
    obtain ⟨id, -, rfl⟩ := List.mem_map.mp member
    exact Binding.isUsable_moduleName id
  constructor
  · intro module member
    have both := List.forall_mem_append.mpr ⟨usable, usable'⟩ module member
    exact ⟨both.identifier, both.noKeyword⟩
  · intro document server units emitted
    have paths := Package.map_path_emit emitted
    have lowered : (units.map fun unit => Text.lower unit.path) = units.map (·.path) := by
      apply List.map_congr_left
      intro unit member
      apply Package.lower_unitPaths usable usable'
      rw [← paths]
      exact List.mem_map_of_mem member
    refine ⟨paths, ?_⟩
    rw [lowered, paths]
    apply Package.nodup_unitPaths
    · rw [types]
      exact closed.finished.nodup_modules
    · rw [modules]
      exact Binding.nodup_moduleName distinct
    · exact usable
    · exact usable'

/-- A document with a schema and two operations whose names are keywords; the operations differ in
punctuation and case only. -/
def keywordDocument : NormalDocument where
  location := "/a"
  dialect := .v31
  root :=
    [(.str "openapi", .str "3.1"), (.str "info", .map []),
     (.str "paths", .map [(.str "p", .map [
       (.str "get", .map [(.str "operationId", .str "pass")]),
       (.str "put", .map [(.str "operationId", .str "Pass!")])])]),
     (.str "components", .map [(.str "schemas", .map [(.str "class", .map [])])])]

def keywordLibrary : Library where
  documents := [("/a", .ok keywordDocument.tree)]

def keywordOperation (id : String) (method : Method) : Operation where
  id := id
  method := method
  path := "p"
  summary := none
  description := none
  deprecated := false
  tags := []
  pathLevel := []
  parameters := {}
  body := none
  responses := []
  union := []
  security := { alternatives := [], headers := [], overridesGlobal := false }

def keywordRegistry : Registry where
  entries := [{ key := "/a#/components/schemas/class", location := "/a", proposed := "class"
                standing := .done (.any {}) }]
  completion := ["/a#/components/schemas/class"]

def keywordSurvey : Survey :=
  (Survey.name keywordDocument [keywordOperation "pass" .get, keywordOperation "pass2" .put]
    keywordRegistry 0).1

theorem Survey.paths_distinct_of_keywords :
    ∃ surveyed generated last,
      (Survey.ofInput keywordLibrary [] "/a").start {} = (.ok keywordSurvey, surveyed) ∧
      (keywordSurvey.generate mutualSettings).start {} = (.ok generated, last) ∧
      generated.units.map (·.path) = ["_runtime.py", "_support.py", "schemas/class2.py",
        "operations/pass_.py", "operations/pass2.py", "schemas/__init__.py",
        "operations/__init__.py", "__init__.py"] ∧
      (generated.units.map fun unit => Text.lower unit.path).Nodup := by
  have ran : (Survey.ofInput keywordLibrary [] "/a").start {} = (.ok keywordSurvey, _) :=
    Run.start_of_fst (by decide +kernel)
  have outcome := Run.start_returned (keywordSurvey.generate mutualSettings) {} (by decide +kernel)
  refine ⟨_, _, _, ran, outcome, by decide +kernel, ?_⟩
  generalize Run.returned _ _ _ = generated, Prod.snd _ = last at outcome ⊢
  obtain ⟨compiled, second, compiles, outcome⟩ := Run.start_bind_ok outcome
  obtain ⟨authHeaders, third, -, outcome⟩ := Run.start_bind_ok outcome
  obtain ⟨bindings, fourth, binds, outcome⟩ := Run.start_bind_ok outcome
  obtain ⟨units, fifth, emits, outcome⟩ := Run.start_bind_ok outcome
  cases outcome
  have distinct := Survey.paths_distinct keywordLibrary [] "/a" {} _ keywordSurvey
    mutualSettings authHeaders compiled bindings {} second third fourth ran compiles binds
  exact (distinct.2 _ _ units (congrArg Prod.fst emits)).2

end Bindery

import Bindery.Proofs.Operation.Analysis
import Bindery.Proofs.Operation.Binding
import Bindery.Proofs.Package.ImportOrder

/-!
# No dependency dangles

Emitting a package starts with a check that every named type that some code
depends on has a unit.  A survey always passes this check.  The schemas of its
types were finished together with everything they mention, and the operations
that mention anything else were left out, so all names in the code of a type or
of an operation are names of types that are emitted.
-/

namespace Bindery

open Code Package List Option Findings Resolving Run

/-! ## Renamed operations -/

namespace Operation

variable (names : List (String × String)) (operation : Operation)

theorem schemas_rename :
    (operation.rename names).schemas = operation.schemas.map (Node.rename names) := by
  have groups : ((operation.rename names).parameters.all.map (·.schema)) =
      (operation.parameters.all.map (·.schema)).map (Node.rename names) := by
    simp [rename, ParameterGroups.rename, ParameterGroups.all, Parameter.rename,
      Function.comp_def]
  have body : (((operation.rename names).body.map (·.content)).getD []).map (·.schema) =
      (((operation.body.map (·.content)).getD []).map (·.schema)).map (Node.rename names) := by
    cases present : operation.body <;>
      simp [rename, present, Media.rename, Function.comp_def]
  have responses : ((operation.rename names).responses.flatMap fun response =>
      response.content.map (·.schema)) =
      (operation.responses.flatMap fun response => response.content.map (·.schema)).map
        (Node.rename names) := by
    simp [rename, flatMap_map, map_flatMap, Media.rename, Function.comp_def]
  rw [schemas, groups, body, responses, schemas, map_append, map_append]

variable {operation}

theorem UnionDeclared.rename (declared : operation.UnionDeclared) :
    (operation.rename names).UnionDeclared := by
  intro member inside media present
  obtain ⟨old, before, rfl⟩ := mem_map.mp inside
  obtain ⟨plain, here, rfl⟩ := map_eq_some_iff.mp present
  rw [schemas_rename]
  exact mem_map_of_mem (declared old before plain here)

end Operation

/-! ## Surveys -/

namespace Survey

variable {operations : List Operation} {registry : Registry} {findings : Findings}

variable {sources : Sources} {later : Journal} {input : String}

/-- Resolving makes requests and finishes the run; the operations it reads have all their targets
registered. -/
theorem resolve_ran
    (ran : (resolve sources).start (start sources) = (.ok (operations, registry), findings)) :
    (∃ calls, (perform sources calls >>= fun _ => finish sources).start
      (start sources) = (.ok registry, findings)) ∧
      Analysis.AllRead operations findings := by
  obtain ⟨_, first, prefetched, ran⟩ := start_bind_ok ran
  obtain ⟨_, second, components, ran⟩ := start_bind_ok ran
  obtain ⟨_, third, analyzed, ran⟩ := start_bind_ok ran
  obtain ⟨_, fourth, finished, ran⟩ := start_bind_ok ran
  cases ran
  have sound := Sound.start sources
  obtain ⟨leads, _⟩ := prefetch_requests.elim sound trivial prefetched
  obtain ⟨leads', _⟩ :=
    components_requests.elim (leads.1.sound sound) trivial components
  obtain ⟨leads'', read⟩ := Analysis.operations_requests.elim
    ((leads.1.trans leads'.1).sound sound) trivial analyzed
  obtain ⟨calls, performed⟩ := (leads.1.trans leads'.1).trans leads''.1
  refine ⟨⟨calls, ?_⟩, ?_⟩
  · rw [start_bind, performed]
    exact finished
  · rw [start_finish] at finished
    cases finished
    exact read

variable {journal : Journal}

theorem resolving_ok {α : Type} {step : Resolving α} {last : Findings} {value : α}
    (ran : (Journaled.resolving step findings).start journal = (.ok (value, last), later)) :
    step.start findings = (.ok value, last) := by
  obtain ⟨_, _, _, ran⟩ := start_bind_ok ran
  obtain ⟨result, _, returned, ran⟩ := start_bind_ok ran
  cases ran
  have ended : (step.start findings).1 = .ok value := congrArg Prod.fst returned
  exact Prod.ext ended rfl

variable {library : Library} {working : List String} {survey : Survey}

/-- A survey names what resolving its document has left. -/
theorem ofInput_ran (ran : (ofInput library working input).start journal = (.ok survey, later)) :
    ∃ document operations registry findings,
      (resolve (Sources.of library working document)).start
        (start (Sources.of library working document)) =
          (.ok (operations, registry), findings) ∧
      survey = (name document operations registry findings.cache.fetchCount).1 := by
  obtain ⟨raw, _, _, ran⟩ := start_bind_ok ran
  obtain ⟨⟨document, diagnostics⟩, _, _, ran⟩ := start_bind_ok ran
  obtain ⟨_, _, _, ran⟩ := start_bind_ok ran
  obtain ⟨_, _, _, ran⟩ := start_bind_ok ran
  obtain ⟨⟨⟨operations, registry⟩, findings⟩, _, resolved, ran⟩ := start_bind_ok ran
  obtain ⟨_, _, _, ran⟩ := start_bind_ok ran
  obtain ⟨_, _, _, ran⟩ := start_bind_ok ran
  cases ran
  exact ⟨document, operations, registry, findings, resolving_ok resolved, rfl⟩

theorem ofInput_document (ran : (ofInput library working input).start journal = (.ok survey, later)) :
    ∃ raw diagnostics, library.load input = .ok raw ∧
      NormalDocument.ofDocument raw (Location.absolute working input) =
        .ok (survey.document, diagnostics) := by
  obtain ⟨raw, _, loaded, ran⟩ := start_bind_ok ran
  obtain ⟨⟨document, diagnostics⟩, _, normal, ran⟩ := start_bind_ok ran
  obtain ⟨_, _, _, ran⟩ := start_bind_ok ran
  obtain ⟨_, _, _, ran⟩ := start_bind_ok ran
  obtain ⟨_, _, _, ran⟩ := start_bind_ok ran
  obtain ⟨_, _, _, ran⟩ := start_bind_ok ran
  obtain ⟨_, _, _, ran⟩ := start_bind_ok ran
  cases ran
  exact ⟨raw, diagnostics, congrArg Prod.fst loaded, congrArg Prod.fst normal⟩

/-- A survey whose types are those of a finished run, and whose operations mention no others. -/
structure Closed (survey : Survey) (registry : Registry) : Prop where
  finished : registry.Finished
  types : survey.types = registry.finalTypes
  known : ∀ operation ∈ survey.operations, ∀ schema ∈ operation.schemas,
    schema.mentions true ⊆ survey.types.map (·.name)
  declared : ∀ operation ∈ survey.operations, operation.UnionDeclared

theorem closed_name
    (ran : (resolve sources).start (Findings.start sources) = (.ok (operations, registry),
      findings)) (document : NormalDocument) (fetchCount : Nat) :
    (name document operations registry fetchCount).1.Closed registry := by
  obtain ⟨⟨calls, performed⟩, read⟩ := resolve_ran ran
  obtain ⟨finished, _, completed⟩ := Resolving.finished_of_run performed
  have kept : ∀ operation ∈ (name document operations registry fetchCount).1.operations,
      ∃ plain ∈ operations, (∀ key ∈ plain.references, key ∉ registry.skipped) ∧
        operation = plain.rename registry.finalNames := by
    intro operation member
    obtain ⟨plain, inside, rfl⟩ := List.mem_map.mp member
    rw [Operation.dropDependents_eq_filter, List.mem_filter] at inside
    refine ⟨plain, inside.1, ?_, rfl⟩
    simpa using inside.2
  refine ⟨finished, rfl, ?_, ?_⟩
  · intro operation member schema inside name mentioned
    obtain ⟨plain, present, unskipped, rfl⟩ := kept operation member
    rw [Operation.schemas_rename, List.mem_map] at inside
    obtain ⟨node, inside, rfl⟩ := inside
    rw [Node.mentions_rename, List.mem_map] at mentioned
    obtain ⟨target, mentioned, rfl⟩ := mentioned
    have referred : target ∈ plain.references :=
      List.mem_eraseDups.mpr (List.mem_flatMap.mpr
        ⟨node, inside, List.mem_eraseDups.mpr mentioned⟩)
    have registered := (read plain present).1 node inside mentioned
    obtain ⟨type, named, same⟩ :=
      finished.exists_named (completed target registered (unskipped target referred))
    exact List.mem_map.mpr ⟨type, named, same⟩
  · intro operation member
    obtain ⟨plain, present, _, rfl⟩ := kept operation member
    exact Operation.UnionDeclared.rename _ (read plain present).2

theorem bind_inside (closed : survey.Closed registry) (settings : Settings)
    (authHeaders : List String) :
    Gives (survey.bind settings authHeaders) fun bindings =>
      ∀ binding ∈ bindings, binding.merged.Inside (survey.types.map (·.name)) := by
  refine Journaled.compiling_gives (.mapM_all fun operation member => ?_)
  exact Binding.ofOperation_inside (closed.known operation member)
    (closed.declared operation member) _ _

theorem compileTypes_inside (closed : survey.Closed registry) (settings : Settings) :
    Gives (survey.compileTypes settings) fun compiled =>
      compiled.map (·.1) = survey.types ∧
        ∀ type ∈ compiled, type.2.Inside (survey.types.map (·.name)) := by
  refine (compileTypes_gives survey settings).mono fun compiled types => ⟨types.1, ?_⟩
  intro type member
  have present : type.1 ∈ registry.finalTypes := by
    rw [← closed.types, ← types.1]
    exact mem_map_of_mem member
  have known : type.1.node.mentions true ⊆ survey.types.map (·.name) := by
    intro name mentioned
    obtain ⟨target, named, same⟩ := closed.finished.mentions_named present mentioned
    rw [closed.types]
    exact mem_map.mpr ⟨target, named, same⟩
  exact (types.2 type member).mono known
    (Subset.trans type.1.node.mentions_direct_subset known)

end Survey

/-! ## The check before emitting -/

namespace Package

theorem lookup_modulesOf_isSome {compiled : List (NamedType × TypeFragment)} {name : String}
    (named : name ∈ compiled.map (·.1.name)) :
    ((modulesOf compiled).lookup name).isSome = true := by
  obtain ⟨type, member, rfl⟩ := mem_map.mp named
  exact lookup_isSome_iff.mpr
    ⟨(type.1.name, type.1.module), mem_map.mpr ⟨type, member, rfl⟩, BEq.rfl⟩

theorem missing?_eq_none {modules : Modules} {names : List String}
    (known : ∀ name ∈ names, (modules.lookup name).isSome = true) :
    missing? modules names = none := by
  rw [missing?, find?_eq_none]
  intro name member
  have present : name ∈ names := by
    simpa [sortNames] using member
  simp [isNone_iff_eq_none, isSome_iff_ne_none.mp (known name present)]

/-- The check finds nothing if all code mentions names of the types only. -/
theorem dangling?_eq_none {types : List (NamedType × TypeFragment)} {bindings : List Binding}
    (ofTypes : ∀ type ∈ types, type.2.Inside (types.map (·.1.name)))
    (ofBindings : ∀ binding ∈ bindings, binding.merged.Inside (types.map (·.1.name))) :
    dangling? (modulesOf types) types bindings = none := by
  rw [dangling?, or_eq_none_iff, findSome?_eq_none_iff, findSome?_eq_none_iff]
  refine ⟨fun type member => ?_, fun binding member => ?_⟩
  · have known : missing? (modulesOf types) type.2.dependencies = none :=
      missing?_eq_none fun _ present =>
        lookup_modulesOf_isSome ((ofTypes type member).dependencies present)
    simp only [known, map_none]
  · have known : missing? (modulesOf types) binding.merged.dependencies = none :=
      missing?_eq_none fun _ present =>
        lookup_modulesOf_isSome ((ofBindings binding member).dependencies present)
    simp only [known, map_none]

section Faults

open NoFault

theorem needEntries_noGenerationFault (value : Value) : NoGenerationFault value.needEntries := by
  intro fault
  cases value <;> nofun

theorem entriesOrNone_noGenerationFault (value : Option Value) :
    NoGenerationFault (Value.entriesOrNone value) := by
  cases value with
  | none => exact ok []
  | some value => exact needEntries_noGenerationFault value

theorem title_noGenerationFault (document : NormalDocument) :
    NoGenerationFault (titleOf document) :=
  bind (bind (entriesOrNone_noGenerationFault _) fun _ => ok _) fun _ => ok _

theorem version_noGenerationFault (document : NormalDocument) :
    NoGenerationFault (versionOf document) :=
  bind (entriesOrNone_noGenerationFault _) fun _ => ok _

theorem servers_noGenerationFault (document : NormalDocument) :
    NoGenerationFault document.servers := by
  refine bind ?_ fun items => mapM fun entries => ?_
  · cases document.root.present? "servers" with
    | none => exact ok []
    | some value =>
      intro fault
      rw [Value.itemsOrNone, Value.needItems.eq_def]
      split <;> rintro ⟨⟩
  · intro fault
    unfold NormalDocument.server
    dsimp only
    split <;> rintro ⟨⟩

/-- Without a dangling dependency, emitting stops with faults of the document only. -/
theorem emit_noGenerationFault {types : List (NamedType × TypeFragment)} {bindings : List Binding}
    (attached : dangling? (modulesOf types) types bindings = none) (document : NormalDocument)
    (server : Bool) : NoGenerationFault (emit document types bindings server) := by
  simp only [emit, attached]
  refine bind (title_noGenerationFault document) fun title => ?_
  refine bind (servers_noGenerationFault document) fun servers => ?_
  exact bind (version_noGenerationFault document) fun version => ok _

end Faults

end Package

namespace Survey

theorem names_compiled {survey : Survey} {compiled : List (NamedType × TypeFragment)}
    (same : compiled.map (·.1) = survey.types) :
    compiled.map (·.1.name) = survey.types.map (·.name) := by
  rw [← same, List.map_map]
  rfl

theorem authHeaders_noGenerationFault (survey : Survey) : NoGenerationFault survey.authHeaders := by
  refine .bind (needEntries_noGenerationFault _) fun components => ?_
  exact .bind (needEntries_noGenerationFault _) fun schemes => .ok _

/-- Generating a package never stops with a fault of its own. -/
theorem generate_gives {survey : Survey} {registry : Registry} (closed : survey.Closed registry)
    (settings : Settings) : Gives (survey.generate settings) fun _ => True := by
  refine .bind (compileTypes_inside closed settings) fun compiled types => ?_
  refine .bind (.ofExcept (fun _ _ => trivial)
    (authHeaders_noGenerationFault survey)) fun authHeaders _ => ?_
  refine .bind (bind_inside closed settings authHeaders) fun bindings inside => ?_
  have attached : dangling? (modulesOf compiled) compiled bindings = none := by
    rw [← names_compiled types.1] at types inside
    exact dangling?_eq_none types.2 inside
  refine .bind (.ofExcept (fun _ _ => trivial)
    (emit_noGenerationFault attached _ _)) fun units _ => ?_
  exact .pure trivial

end Survey

/--
Whatever document a survey was made from, all names that the code of its types
and operations depends on, directly or lazily, are names of its types.  So the
check before emitting finds nothing, every import finds its module, and
generating the package never stops because of a dependency.
-/
theorem Survey.dependencies_named (library : Library) (working : List String) (input : String)
    (journal surveyed : Journal) (survey : Survey) (settings : Settings)
    (authHeaders : List String) (compiled : List (NamedType × TypeFragment))
    (bindings : List Binding) (first second third fourth : Journal)
    (ran : (Survey.ofInput library working input).start journal = (.ok survey, surveyed))
    (compiles : (survey.compileTypes settings).start first = (.ok compiled, second))
    (binds : (survey.bind settings authHeaders).start third = (.ok bindings, fourth)) :
    compiled.map (·.1) = survey.types ∧
    (∀ type ∈ compiled, ∀ name ∈ type.2.dependencies ++ type.2.forward,
      name ∈ survey.types.map (·.name)) ∧
    (∀ binding ∈ bindings, ∀ name ∈ binding.merged.dependencies ++ binding.merged.forward,
      name ∈ survey.types.map (·.name)) ∧
    Package.dangling? (Package.modulesOf compiled) compiled bindings = none ∧
    (∀ type ∈ compiled, ∀ name ∈ type.2.imports,
      ((Package.modulesOf compiled).lookup name).isSome = true) ∧
    (∀ binding ∈ bindings, ∀ name ∈ binding.merged.imports,
      ((Package.modulesOf compiled).lookup name).isSome = true) ∧
    ∀ start fault, ((survey.generate settings).start start).1 ≠ .error (.generation fault) := by
  obtain ⟨document, operations, registry, findings, resolved, made⟩ := Survey.ofInput_ran ran
  have closed : survey.Closed registry :=
    made ▸ Survey.closed_name resolved document findings.cache.fetchCount
  obtain ⟨same, ofTypes⟩ :=
    (Survey.compileTypes_inside closed settings).returns first compiled second compiles
  have ofBindings :=
    (Survey.bind_inside closed settings authHeaders).returns third bindings fourth binds
  have names := Survey.names_compiled same
  have emitted {name : String} (named : name ∈ survey.types.map (·.name)) :
      ((modulesOf compiled).lookup name).isSome = true :=
    lookup_modulesOf_isSome (names ▸ named)
  refine ⟨same, ?_, ?_, ?_, ?_, ?_, ?_⟩
  · intro type member
    exact List.append_subset.mpr ⟨(ofTypes type member).dependencies, (ofTypes type member).forward⟩
  · intro binding member
    exact List.append_subset.mpr
      ⟨(ofBindings binding member).dependencies, (ofBindings binding member).forward⟩
  · exact dangling?_eq_none (names ▸ ofTypes) (names ▸ ofBindings)
  · exact fun type member name imported => emitted ((ofTypes type member).imports imported)
  · exact fun binding member name imported => emitted ((ofBindings binding member).imports imported)
  · exact fun start => (Survey.generate_gives closed settings).stops start

def mutualOperation : Operation where
  id := "getP"
  method := .get
  path := "p"
  summary := none
  description := none
  deprecated := false
  tags := []
  pathLevel := []
  parameters := {}
  body := none
  responses := [{ status := "200", description := none
                  content := [{ contentType := "j", schema := .reference {} "/a#k" false }] }]
  union := [{ status := "200"
              media := some { contentType := "j", schema := .reference {} "/a#k" false } }]
  security := { alternatives := [], headers := [], overridesGlobal := false }

def mutualSurvey : Survey :=
  (Survey.name mutualDocument [mutualOperation] mutualRegistry 0).1

theorem Survey.dependencies_named_of_mutual :
    ∃ surveyed compiled second bindings fourth,
      (Survey.ofInput mutualLibrary [] "/a").start {} = (.ok mutualSurvey, surveyed) ∧
      (mutualSurvey.compileTypes mutualSettings).start {} = (.ok compiled, second) ∧
      (mutualSurvey.bind mutualSettings []).start {} = (.ok bindings, fourth) ∧
      (compiled.map fun type => (type.1.name, type.2.dependencies)) =
        [("L", ["K"]), ("K", ["L"])] ∧
      (bindings.map fun binding => binding.merged.dependencies) = [["K"]] ∧
      Package.dangling? (Package.modulesOf compiled) compiled bindings = none := by
  have ran : (Survey.ofInput mutualLibrary [] "/a").start {} = (.ok mutualSurvey, _) :=
    Run.start_of_fst (by decide +kernel)
  have compiles := Run.start_returned (mutualSurvey.compileTypes mutualSettings) {}
    (by decide +kernel)
  have binds := Run.start_returned (mutualSurvey.bind mutualSettings []) {} (by decide +kernel)
  have attached := Survey.dependencies_named mutualLibrary [] "/a" {} _ mutualSurvey
    mutualSettings [] _ _ {} _ {} _ ran compiles binds
  exact ⟨_, _, _, _, _, ran, compiles, binds, by decide +kernel, by decide +kernel,
    attached.2.2.2.1⟩

end Bindery

import Mathlib
import Bindery.Proofs.Code.Expression
import Bindery.Proofs.Dialect.JsonDocuments
import Bindery.Proofs.Package.Dependencies
import Bindery.Proofs.Resolution.Loading
import Bindery.Proofs.Resolution.Traces

/-!
# Names that a unit binds

The unit of a named type binds the names that its expression uses: a name is a
built-in one, or one of the runtime unit that the unit imports, or the name of a
type that it imports.

Two kinds of literals use names that nothing binds: a double that is not finite
is written by a bare name, and the offset of a moment by attributes of its module.
Documents in JSON have no moments, and finding, converting and reading a schema
stays among the values of JSON.  So in a unit that comes from them the only names
without a binding are `inf` and `nan`, and some schema holds the number they stand for.
-/

namespace Bindery

/-! ## Resolving JSON documents -/

section Json

open Node

/-- Every document that can be loaded is one that JSON has. -/
def Library.IsJson (library : Library) : Prop :=
  ∀ location document, library.load location = .ok document → document.IsJson

/-- The root and every document that can be loaded are ones that JSON has. -/
structure Sources.IsJson (sources : Sources) : Prop where
  root : sources.root.tree.IsJson
  library : sources.library.IsJson

theorem Sources.IsJson.of_provides {sources : Sources} (json : sources.IsJson) {location : String}
    {document : Value} (provided : sources.Provides location document) : document.IsJson := by
  rcases provided with ⟨-, rfl⟩ | loaded
  · exact json.root
  · exact json.library location document loaded

namespace Resolving

variable {sources : Sources}

/-- The schemas of JSON documents are ones that JSON has. -/
theorem isJson_of_schemaAt (json : sources.IsJson) {text : String} {reference : Reference}
    {schema : Value} (found : sources.schemaAt text reference = .ok schema) : schema.IsJson := by
  obtain ⟨value, targeted, rest⟩ := ok_of_bind found
  obtain ⟨dialect, -, same⟩ := ok_of_bind rest
  cases same
  obtain ⟨document, provided, walked⟩ := Sources.resolve_of_targetAt targeted
  have whole := json.of_provides (Sources.provides_of_documentAt provided)
  exact Dialect.isJson_convertSchema dialect value (whole.part (Pointer.partOf_of_resolve walked))

theorem scalars_unalias (node : Node) : (unalias node).scalars = node.scalars := by
  cases node with
  | reference note target forward =>
    simp [unalias, scalars, scalarsList, Note.scalars]
  | _ => rfl

section References

variable (json : sources.IsJson)

include json

theorem isJson_of_records {entries : List Registration} {reference : Reference}
    {entry : Registration} (records : sources.Records entries reference entry) {node : Node}
    (done : entry.standing = .done node) : node.IsJson := by
  rcases records.standing with ⟨_, outlined, asked, done', ⟨text, schema, found, outline⟩, same, -⟩ |
    ⟨message, failed, -⟩
  · cases done.symm.trans done'
    obtain ⟨_, _, -, read⟩ := Schema.outline_read outline
    have scalars := congrArg scalars same
    rw [scalars_redirect, scalars_redirect, scalars_unalias] at scalars
    rw [IsJson, scalars]
    exact read.fits.json (isJson_of_schemaAt json found)
  · cases done.symm.trans failed

theorem isJson_finalTypes (ample : nestingBound sources + 2 ≤ sources.bound) {calls : List Call}
    {registry : Registry} {findings : Findings}
    (ran : (perform sources calls >>= fun _ => finish sources).start (Findings.start sources) =
      (.ok registry, findings)) : ∀ type ∈ registry.finalTypes, type.node.IsJson := by
  have finished := (finished_of_run ran).1
  obtain ⟨_, middle, performed, ended⟩ := Run.start_bind_ok ran
  rw [start_finish] at ended
  cases ended
  intro type member
  obtain ⟨entry, registered, node, done, rfl⟩ := finished.eq_finalType member
  have before := (Registry.mem_entries_finish.mp registered).1
  intro scalar inside
  rw [Registry.finalType, scalars_rename] at inside
  obtain ⟨_, _, -, records, -⟩ := (traced_of_perform ample performed).found entry before
  exact isJson_of_records json records done scalar inside

end References

end Resolving

end Json

/-! ## Names in units -/

open Code Survey Naming Scalar List Package

/-- The names in the literal of a scalar that no unit binds. -/
def Scalar.looseNames : Scalar → List String
  | .float value => value.names
  | .dateTime moment => if moment.offset.isSome then ["timezone", "utc"] else []
  | _ => []

variable {word : String} {settings : Settings} {compiled : List (NamedType × TypeFragment)}
  {first second : Journal} {type : NamedType × TypeFragment}

namespace Package

/-- A name that the unit of a named type binds. -/
def Binds (compiled : List (NamedType × TypeFragment)) (fragment : TypeFragment)
    (word : String) : Prop :=
  word ∈ builtinNames ∨ word ∈ typeRuntime fragment.code.text ∨
    ∃ module, (module, word) ∈ schemaImports (modulesOf compiled) fragment.imports

theorem mem_typeRuntime {code : String} : word ∈ typeRuntime code ↔
    word = "register" ∨ word ∈ runtimeNames ∧ word ∈ identifiers code := by
  simp [typeRuntime, runtimeMentions, sortNames]

theorem names_standard : ∀ word ∈ "False" :: typeNames,
    word ∈ builtinNames ∨ word ∈ runtimeNames := by
  decide +kernel

/-- The names in a literal are built-in names, names of the runtime unit, and loose ones. -/
theorem names_bound_or_loose {scalar : Scalar} (member : word ∈ scalar.names) :
    (word ∈ builtinNames ∨ word ∈ runtimeNames) ∨ word ∈ scalar.looseNames := by
  have standard : ["None", "True", "False", "datetime", "date", "timedelta"] ⊆
      "False" :: typeNames := by decide
  have fixed : ∀ word ∈ ["None", "True", "False", "datetime", "date", "timedelta"],
      word ∈ builtinNames ∨ word ∈ runtimeNames :=
    fun word member => names_standard word (standard member)
  cases scalar with
  | null => exact .inl (fixed word (by simp_all [names]))
  | bool value => exact .inl (fixed word (by cases value <;> simp_all [names]))
  | int value => cases member
  | float value => exact .inr member
  | str value => cases member
  | bytes value => cases member
  | date value => exact .inl (fixed word (by simp_all [names]; grind))
  | dateTime moment =>
    rcases mem_cons.mp member with rfl | zone
    · exact .inl (fixed _ (by simp))
    · split at zone
      next known =>
        simp only [mem_cons, not_mem_nil, or_false] at zone
        rcases zone with rfl | rfl | rfl
        · exact .inr (by simp [looseNames, known])
        · exact .inr (by simp [looseNames, known])
        · exact .inl (fixed _ (by simp))
      next => cases zone

end Package

namespace Survey

/-- Some schema of a survey has a scalar whose literal uses a name that nothing binds. -/
def Loose (survey : Survey) (word : String) : Prop :=
  ∃ type ∈ survey.types, ∃ scalar ∈ type.node.scalars, word ∈ scalar.looseNames

/-- The names that code of a survey uses besides those of types. -/
def Plain (survey : Survey) (word : String) : Prop :=
  (word ∈ builtinNames ∨ word ∈ runtimeNames) ∨ survey.Loose word

variable {survey : Survey} {registry : Registry}

theorem usable_plain {type : NamedType} (member : type ∈ survey.types) :
    ∀ scalar ∈ type.node.scalars, Usable survey.Plain scalar := by
  intro scalar inside word named
  exact (names_bound_or_loose named).imp_right fun loose =>
    ⟨type, member, scalar, inside, loose⟩

theorem isIdentifier_name (closed : survey.Closed registry) {type : NamedType}
    (member : type ∈ survey.types) : isIdentifier type.name = true := by
  rw [closed.types] at member
  exact isIdentifier_assignNames (closed.finished.mem_finalNames member)

/-- Every type of a survey is compiled to an expression of plain and imported names. -/
theorem compileTypes_formed (closed : survey.Closed registry) (settings : Settings) :
    Run.Returns (survey.compileTypes settings) fun compiled =>
      ∀ type ∈ compiled, Formed survey.Plain type.2 := by
  have standard : Standard survey.Plain := fun word member =>
    .inl (names_standard word (mem_cons_of_mem _ member))
  have known : ScopeUsable survey.Plain (survey.scope settings) := by
    intro named inside
    obtain ⟨type, member, rfl⟩ := mem_map.mp inside
    exact usable_plain member
  refine Journaled.compiling_returns (Run.Returns.mapM_all fun type member => ?_)
  have targets : ∀ target ∈ type.node.mentions false, isIdentifier target = true := by
    intro target mentioned
    have present : type ∈ registry.finalTypes := closed.types ▸ member
    obtain ⟨other, named, rfl⟩ := closed.finished.mentions_named present
      (type.node.mentions_direct_subset mentioned)
    exact isIdentifier_name closed (closed.types ▸ named)
  have forms := compile_formed standard known false type.node (usable_plain member) targets
  exact .bind (forms type.name) fun fragment formed => .pure formed

/-- Every name in the code of a type is bound by its unit, unless it is loose. -/
theorem binds_or_loose (closed : survey.Closed registry)
    (compiles : (survey.compileTypes settings).start first = (.ok compiled, second))
    (member : type ∈ compiled) : ∃ tokens, lex type.2.code.text = some tokens ∧
      ∀ word, .name word ∈ tokens → Binds compiled type.2 word ∨ survey.Loose word := by
  obtain ⟨same, inside⟩ :=
    (compileTypes_inside closed settings).returns first compiled second compiles
  obtain ⟨tokens, spells, derives⟩ :=
    (compileTypes_formed closed settings first compiled second compiles type member).code
  refine ⟨tokens, spells.lex, fun word named => ?_⟩
  rcases derives.usable_of_mem named with ((builtin | runtime) | loose) | imported
  · exact .inl (.inl builtin)
  · have mentioned := mem_identifiers_of_lex spells.lex named
    exact .inl (.inr (.inl (mem_typeRuntime.mpr (.inr ⟨runtime, mentioned⟩))))
  · exact .inr loose
  · have emitted : word ∈ compiled.map (·.1.name) := by
      rw [names_compiled same]
      exact (inside type member).imports imported
    obtain ⟨module, found⟩ :=
      Option.isSome_iff_exists.mp (lookup_modulesOf_isSome emitted)
    exact .inl (.inr (.inr ⟨module, mem_schemaImports.mpr ⟨imported, found⟩⟩))

/-! ## Documents of JSON -/

/-- Every type of a survey of JSON documents is made of scalars that JSON has. -/
theorem isJson_types {library : Library} {working : List String} {input : String}
    {journal surveyed : Journal} (json : library.IsJson)
    (ran : (ofInput library working input).start journal = (.ok survey, surveyed)) :
    ∀ type ∈ survey.types, type.node.IsJson := by
  obtain ⟨raw, told, loaded, normal⟩ := ofInput_document ran
  obtain ⟨document, operations, registry, findings, resolved, rfl⟩ := ofInput_ran ran
  have sources : (Sources.of library working document).IsJson :=
    ⟨NormalDocument.isJson_ofDocument (json input raw loaded) normal, json⟩
  obtain ⟨⟨calls, performed⟩, -⟩ := resolve_ran resolved
  exact Resolving.isJson_finalTypes sources (Nat.le_refl _) performed

/-- A type of a survey holds a number that is not finite, which is written by a name. -/
def Nonfinite (survey : Survey) (word : String) : Prop :=
  ∃ type ∈ survey.types, ∃ value : Double, .float value ∈ type.node.scalars ∧ word ∈ value.names

/-- Among scalars of JSON only numbers that are not finite are written by loose names. -/
theorem nonfinite_of_loose (json : ∀ type ∈ survey.types, type.node.IsJson)
    (loose : survey.Loose word) : survey.Nonfinite word := by
  obtain ⟨type, member, scalar, inside, named⟩ := loose
  have plain := json type member scalar inside
  cases scalar with
  | float value => exact ⟨type, member, value, inside, named⟩
  | dateTime moment => cases plain
  | _ => cases named

end Survey

/-- The names that stand for numbers that are not finite. -/
def nonfiniteNames : List String := ["inf", "nan"]

theorem Double.names_subset (value : Double) : value.names ⊆ nonfiniteNames := by
  cases value <;> simp [names, nonfiniteNames]

namespace Survey

variable {survey : Survey} {registry : Registry}

/-- No unit binds a name that stands for a number that is not finite: it is no name of the
language or of the runtime unit, and names of types have capital initials. -/
theorem not_binds_nonfinite (closed : survey.Closed registry)
    (compiles : (survey.compileTypes settings).start first = (.ok compiled, second))
    (member : type ∈ compiled) (named : word ∈ nonfiniteNames) : ¬Binds compiled type.2 word := by
  have foreign : ∀ word ∈ nonfiniteNames, word ∉ builtinNames ∧
      word ∉ runtimeNames ∧ word.toList.head?.all (!·.isLower) = false := by
    decide
  obtain ⟨noBuiltin, noRuntime, small⟩ := foreign word named
  rintro (builtin | runtime | ⟨module, imported⟩)
  · exact noBuiltin builtin
  · rcases mem_typeRuntime.mp runtime with rfl | ⟨known, -⟩
    · exact noRuntime (by decide)
    · exact noRuntime known
  · have inside := ((compileTypes_inside closed settings).returns first compiled second compiles).2
    have among := (inside type member).imports (mem_schemaImports.mp imported).1
    obtain ⟨target, known, rfl⟩ := mem_map.mp among
    rw [closed.types] at known
    have capital := capital_assignNames (closed.finished.mem_finalNames known)
    rw [small] at capital
    cases capital

end Survey

/-- In a package for JSON documents the unit of a type binds every name in its code but those that
stand for numbers that are not finite, and these are there only if a schema holds such a number. -/
theorem Survey.names_bound_unless_nonfinite (library : Library) (working : List String)
    (input : String) (journal surveyed : Journal) (survey : Survey) (settings : Settings)
    (compiled : List (NamedType × TypeFragment)) (first second : Journal)
    (json : library.IsJson)
    (ran : (Survey.ofInput library working input).start journal = (.ok survey, surveyed))
    (compiles : (survey.compileTypes settings).start first = (.ok compiled, second)) :
    ∀ type ∈ compiled, ∃ tokens, lex type.2.code.text = some tokens ∧
      ∀ word, .name word ∈ tokens →
        (Package.Binds compiled type.2 word ↔ word ∉ nonfiniteNames) ∧
        (word ∈ nonfiniteNames → survey.Nonfinite word) := by
  obtain ⟨document, operations, registry, findings, resolved, made⟩ := ofInput_ran ran
  have closed : survey.Closed registry :=
    made ▸ closed_name resolved document findings.cache.fetchCount
  intro type member
  obtain ⟨tokens, read, each⟩ := binds_or_loose closed compiles member
  refine ⟨tokens, read, fun word named => ?_⟩
  have unbound : word ∈ nonfiniteNames → ¬Package.Binds compiled type.2 word :=
    not_binds_nonfinite closed compiles member
  rcases each word named with bound | loose
  · have finite : word ∉ nonfiniteNames := fun nonfinite => unbound nonfinite bound
    exact ⟨⟨fun _ => finite, fun _ => bound⟩, fun nonfinite => absurd nonfinite finite⟩
  · have held := nonfinite_of_loose (isJson_types json ran) loose
    have nonfinite : word ∈ nonfiniteNames := by
      obtain ⟨_, _, value, _, spelled⟩ := held
      exact value.names_subset spelled
    exact ⟨⟨fun bound => absurd bound (unbound nonfinite), fun finite => absurd nonfinite finite⟩,
      fun _ => held⟩

/-! ## A bound that is too large for a double -/

/-- A document in which a number has a bound beyond all doubles. -/
def infiniteDocument : NormalDocument where
  location := "/a"
  dialect := .v31
  root :=
    [(.str "openapi", .str "3.1.0"), (.str "info", .map []),
     (.str "components", .map [(.str "schemas", .map [
       (.str "b", .map [(.str "type", .str "number"), (.str "maximum", .float (.infinity false))]),
       (.str "a", .map [(.str "$ref", .str "#/components/schemas/b")])])])]

def infiniteLibrary : Library where
  documents := [("/a", .ok infiniteDocument.tree)]

def infiniteRegistry : Registry where
  entries :=
    [{ key := "/a#/components/schemas/b", location := "/a", proposed := "b"
       standing := .done (.primitive {} .number none { maximum := some (.infinity false) }) },
     { key := "/a#/components/schemas/a", location := "/a", proposed := "a"
       standing :=
         .done (.composition {} .allOf [.reference {} "/a#/components/schemas/b" false] none) }]
  completion := ["/a#/components/schemas/b", "/a#/components/schemas/a"]

def infiniteSurvey : Survey :=
  (name infiniteDocument [] infiniteRegistry 0).1

theorem isJson_infiniteLibrary : infiniteLibrary.IsJson := by
  intro location document loaded
  cases mem_singleton.mp (Library.mem_of_load loaded)
  simp [infiniteDocument, NormalDocument.tree, isJson]

theorem start_infiniteSurvey :
    (ofInput infiniteLibrary [] "/a").start {} = (.ok infiniteSurvey,
      ((ofInput infiniteLibrary [] "/a").start {}).2) :=
  Run.start_of_fst (by decide +kernel)

theorem start_infiniteTypes :
    ∃ compiled later,
      (infiniteSurvey.compileTypes mutualSettings).start {} = (.ok compiled, later) ∧
      compiled.map (·.2.code.text) = ["Annotated[StrictFloat, Field(le=inf)]", "B"] :=
  Run.start_of_view (by decide +kernel)

theorem Survey.names_bound_unless_nonfinite_of_infinite :
    ∃ surveyed compiled later, infiniteLibrary.IsJson ∧
      (Survey.ofInput infiniteLibrary [] "/a").start {} = (.ok infiniteSurvey, surveyed) ∧
      (infiniteSurvey.compileTypes mutualSettings).start {} = (.ok compiled, later) ∧
      compiled.map (·.2.code.text) = ["Annotated[StrictFloat, Field(le=inf)]", "B"] ∧
      ∀ type ∈ compiled, ∃ tokens, lex type.2.code.text = some tokens ∧
        ∀ word, .name word ∈ tokens →
          (Package.Binds compiled type.2 word ↔ word ∉ nonfiniteNames) := by
  have ran := start_infiniteSurvey
  obtain ⟨compiled, later, compiles, texts⟩ := start_infiniteTypes
  refine ⟨_, compiled, later, isJson_infiniteLibrary, ran, compiles, texts, ?_⟩
  intro type member
  obtain ⟨tokens, read, each⟩ := names_bound_unless_nonfinite infiniteLibrary [] "/a" {}
    _ infiniteSurvey mutualSettings compiled {} later isJson_infiniteLibrary ran compiles
    type member
  exact ⟨tokens, read, fun word named => (each word named).1⟩

/-- A bound beyond all doubles is written by a name that the unit of the type does not bind. -/
theorem Survey.infinite_bound_unbound :
    ∃ surveyed compiled later, infiniteLibrary.IsJson ∧
      (Survey.ofInput infiniteLibrary [] "/a").start {} = (.ok infiniteSurvey, surveyed) ∧
      (infiniteSurvey.compileTypes mutualSettings).start {} = (.ok compiled, later) ∧
      ∃ type ∈ compiled, ∃ tokens, lex type.2.code.text = some tokens ∧ .name "inf" ∈ tokens ∧
        ¬Package.Binds compiled type.2 "inf" := by
  have ran := start_infiniteSurvey
  obtain ⟨compiled, later, compiles, texts⟩ := start_infiniteTypes
  obtain ⟨document, operations, registry, findings, resolved, made⟩ := ofInput_ran ran
  have closed : infiniteSurvey.Closed registry :=
    made ▸ closed_name resolved document findings.cache.fetchCount
  have listed : "Annotated[StrictFloat, Field(le=inf)]" ∈ compiled.map (·.2.code.text) := by
    simp [texts]
  obtain ⟨type, member, text⟩ := List.mem_map.mp listed
  have unbound : ¬Package.Binds compiled type.2 "inf" :=
    not_binds_nonfinite closed compiles member (by decide)
  refine ⟨_, compiled, later, isJson_infiniteLibrary, ran, compiles, type, member, ?_⟩
  rw [text]
  exact ⟨_, rfl, by decide, unbound⟩

end Bindery

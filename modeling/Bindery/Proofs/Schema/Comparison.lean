import Bindery.Proofs.Course
import Bindery.Proofs.Schema.Keywords
import Bindery.Proofs.Schema.Redirect
import Bindery.Proofs.Schema.Scalars
import Bindery.Proofs.Value.Json

/-!
# Comparing two readings of a schema

The reader of schemas knows nothing of the state behind its surroundings, and what it
does next does not depend on their answers.  So a comparison of two computations
that can be made step by step can be made of one schema read in two surroundings.

Both readings give the same schema, up to the targets of its references.  Every
target is an answer of the surroundings, and a schema that JSON has is read as
one that holds no bytes and no calendar values.
-/

namespace Bindery

open List Node Field

/-- Every scalar of a default value is one that JSON has. -/
def Note.IsJson (note : Note) : Prop :=
  ∀ scalar ∈ note.scalars, scalar.isJson = true

/-- Every scalar of a schema is one that JSON has. -/
def Node.IsJson (node : Node) : Prop :=
  ∀ scalar ∈ node.scalars, scalar.isJson = true

namespace Schema

/-! ## Comparisons -/

/-- The answers that the same questions get in two surroundings. -/
abbrev Answers := List (Target × Target)

/-- Two surroundings, and a way to compare computations in them: `holds` says that two of them end
alike, with values that fit the answers they are given.  The `texts` are those that may be asked
for.  If `placed` holds, both computations have to report the same. -/
structure Comparison (State Other : Type) where
  first : Surroundings State
  second : Surroundings Other
  texts : List String
  placed : Prop
  holds {α : Type} (here : Run State α) (there : Run Other α) (fits : Answers → α → α → Prop) : Prop
  pure {α : Type} {value value' : α} {fits : Answers → α → α → Prop} :
    fits [] value value' → holds (pure value) (pure value') fits
  throw {α : Type} {fault : Fault} {fits : Answers → α → α → Prop} :
    (∀ cause, fault ≠ .resolution cause) → holds (throw fault) (throw fault) fits
  bind {α β : Type} {here : Run State α} {there : Run Other α} {next : α → Run State β}
    {next' : α → Run Other β} {middle : Answers → α → α → Prop} {fits : Answers → β → β → Prop} :
    holds here there middle →
    (∀ answers value value', middle answers value value' →
      holds (next value) (next' value') fun more => fits (answers ++ more)) →
    holds (here >>= next) (there >>= next') fits
  resolve : ∀ text ∈ texts, holds (first.resolve text) (second.resolve text)
    fun answers target target' => answers = [(target, target')]
  report : ∀ diagnostic diagnostic', diagnostic.code = .unsupportedKeyword →
    (placed → diagnostic = diagnostic') →
    holds (first.report diagnostic) (second.report diagnostic') fun answers _ _ => answers = []

namespace Comparison

variable {State Other α β : Type} (compare : Comparison State Other) {here : Run State α}
  {there : Run Other α} {middle : Answers → α → α → Prop}

/-- What is made of the results fits the same answers. -/
theorem map {fits : Answers → β → β → Prop} (change change' : α → β)
    (steps : compare.holds here there middle)
    (weaker : ∀ answers value value', middle answers value value' →
      fits answers (change value) (change' value')) :
    compare.holds (do return change (← here)) (do return change' (← there)) fits := by
  refine compare.bind steps fun answers value value' holds => compare.pure ?_
  rw [append_nil]
  exact weaker answers value value' holds

theorem mono {fits : Answers → α → α → Prop} (steps : compare.holds here there middle)
    (weaker : ∀ answers value value', middle answers value value' → fits answers value value') :
    compare.holds here there fits := by
  simpa using compare.map id id steps weaker

/-- A step without questions leaves the answers as they are. -/
theorem after {next : α → Run State β} {next' : α → Run Other β} {fits : Answers → β → β → Prop}
    {fact : α → α → Prop} (steps : compare.holds here there fun answers value value' =>
      answers = [] ∧ fact value value')
    (rest : ∀ value value', fact value value' → compare.holds (next value) (next' value') fits) :
    compare.holds (here >>= next) (there >>= next') fits := by
  refine compare.bind steps ?_
  rintro _ value value' ⟨rfl, holds⟩
  exact rest value value' holds

theorem ofExcept {result : Except Fault α} (clear : NoResolutionFault result) :
    compare.holds (Run.ofExcept result) (Run.ofExcept result) fun answers value value' =>
      answers = [] ∧ value = value' ∧ result = .ok value := by
  cases result with
  | error fault => exact compare.throw fun cause same => clear cause (congrArg _ same)
  | ok value => exact compare.pure ⟨rfl, rfl, rfl⟩

theorem reports {diagnostics diagnostics' : List Diagnostic}
    (keywords : ∀ diagnostic ∈ diagnostics, diagnostic.code = .unsupportedKeyword)
    (same : compare.placed → diagnostics = diagnostics')
    (length : diagnostics.length = diagnostics'.length) :
    compare.holds (diagnostics.forM compare.first.report) (diagnostics'.forM compare.second.report)
      fun answers _ _ => answers = [] ∧ True := by
  induction diagnostics generalizing diagnostics' with
  | nil =>
    obtain rfl := length_eq_zero_iff.mp length.symm
    exact compare.pure ⟨rfl, trivial⟩
  | cons diagnostic rest ih =>
    obtain ⟨keyword, others⟩ := forall_mem_cons.mp keywords
    cases diagnostics' with
    | nil => cases length
    | cons diagnostic' rest' =>
      refine compare.bind (compare.report diagnostic diagnostic' keyword fun placed =>
        (cons.inj (same placed)).1) ?_
      rintro _ _ _ rfl
      exact ih others (fun placed => (cons.inj (same placed)).2) (Nat.succ.inj length)

end Comparison

/-! ## What is read -/

/-- What is promised of a schema: that JSON has it, and that no two tags of a discriminator in it
have the same text. -/
structure Promise where
  json : Prop
  apart : Prop

/-- What is known of a schema that is read.  It mentions only answers, directly only those for
finished targets, and by forward references only those for others.  It has scalars of JSON only, if
that is promised. -/
structure Fits (promise : Promise) (answers : Answers) (node : Node) : Prop where
  mentioned : ∀ key ∈ node.mentions true, ∃ answer ∈ answers, answer.1.key = key
  direct : ∀ key ∈ node.mentions false,
    ∃ answer ∈ answers, answer.1.key = key ∧ answer.1.forward = false
  deferred : ∀ key, node.Defers key →
    ∃ answer ∈ answers, answer.1.key = key ∧ answer.1.forward = true
  json : promise.json → node.IsJson

/-- What is known of two results of a reading, the first of which holds some schemas and some
targets beside.  The schemas fit, and the targets are answers.  No answer is lost, if tags are
apart.  Both results are the same once their answers are replaced alike, and if their answers are. -/
structure Reading (promise : Promise) (answers : Answers) (schemas : List Node)
    (targets : List String) {α : Type} (redirect : (String → String) → α → α) (value value' : α) :
    Prop where
  fits : ∀ schema ∈ schemas, Fits promise answers schema
  told : ∀ key ∈ targets, ∃ answer ∈ answers, answer.1.key = key
  kept : promise.apart → ∀ answer ∈ answers,
    (∃ schema ∈ schemas, answer.1.key ∈ schema.mentions true) ∨ answer.1.key ∈ targets
  alike : ∀ here there, (∀ answer ∈ answers, here answer.1.key = there answer.2.key) →
    redirect here value = redirect there value'
  same : (∀ answer ∈ answers, answer.1 = answer.2) → value = value'

section Built

variable {promise : Promise} {answers more : Answers} {schemas schemas' : List Node}
  {targets targets' : List String} {α β γ : Type} {redirect : (String → String) → α → α}
  {redirect' : (String → String) → β → β} {redirected : (String → String) → γ → γ}
  {value value' : α} {other other' : β} {node node' : Node} {nodes nodes' : List Node}
  {tags tags' : Option Discriminator} {note : Note}

theorem Fits.mono (fits : Fits promise answers node) (kept : answers ⊆ more) :
    Fits promise more node where
  mentioned key member := (fits.mentioned key member).imp fun _ => And.imp_left (@kept _)
  direct key member := (fits.direct key member).imp fun _ => And.imp_left (@kept _)
  deferred key defers := (fits.deferred key defers).imp fun _ => And.imp_left (@kept _)
  json := fits.json

/-- A schema that is no reference fits if its children do and its own targets are answers. -/
theorem Fits.of_children (children : ∀ child ∈ node.children, Fits promise answers child)
    (own : ∀ key ∈ node.ownTargets true, ∃ answer ∈ answers, answer.1.key = key)
    (bare : node.target? = none)
    (noted : promise.json → ∀ scalar ∈ node.ownScalars, scalar.isJson = true) :
    Fits promise answers node where
  mentioned key member := by
    rw [mentions_eq, mem_append] at member
    rcases member with inside | here
    · obtain ⟨child, listed, mentioned⟩ := mem_flatMap.mp inside
      exact (children child listed).mentioned key mentioned
    · exact own key here
  direct key member := by
    have silent : node.ownTargets false = [] := by
      cases node <;> simp_all [ownTargets, target?]
    rw [mentions_eq, silent, append_nil] at member
    obtain ⟨child, listed, mentioned⟩ := mem_flatMap.mp member
    exact (children child listed).direct key mentioned
  deferred key defers := by
    obtain ⟨child, listed, inside⟩ := defers.of_child fun _ _ same => by
      rw [same] at bare
      cases bare
    exact (children child listed).deferred key inside
  json holds := by
    rw [IsJson, scalars_eq]
    refine forall_mem_append.mpr ⟨noted holds, fun scalar member => ?_⟩
    obtain ⟨child, listed, inside⟩ := mem_flatMap.mp member
    exact (children child listed).json holds scalar inside

theorem Reading.still (kept : ∀ change, redirect change value = value) :
    Reading promise [] [] [] redirect value value where
  fits := forall_mem_nil _
  told := forall_mem_nil _
  kept _ := forall_mem_nil _
  alike here there _ := (kept here).trans (kept there).symm
  same _ := rfl

section

variable (reading : Reading promise answers schemas targets redirect value value')

include reading

theorem Reading.congr (same : ∀ answer, answer ∈ answers ↔ answer ∈ more) :
    Reading promise more schemas targets redirect value value' where
  fits schema member := (reading.fits schema member).mono fun answer => (same answer).mp
  told key member := (reading.told key member).imp fun answer => And.imp_left (same answer).mp
  kept holds answer given := reading.kept holds answer ((same answer).mpr given)
  alike here there agree := reading.alike here there fun answer given =>
    agree answer ((same answer).mp given)
  same agree := reading.same fun answer given => agree answer ((same answer).mp given)

/-- A whole is made of one part. -/
theorem Reading.build (make : α → β)
    (kept : ∀ change part, redirect' change (make part) = make (redirect change part)) :
    Reading promise answers schemas targets redirect' (make value) (make value') where
  fits := reading.fits
  told := reading.told
  kept := reading.kept
  alike here there agree := by rw [kept, kept, reading.alike here there agree]
  same agree := congrArg make (reading.same agree)

/-- A whole is made of two parts. -/
theorem Reading.append (reading' : Reading promise more schemas' targets' redirect' other other')
    (make : α → β → γ) (kept : ∀ change part part', redirected change (make part part') =
      make (redirect change part) (redirect' change part')) :
    Reading promise (answers ++ more) (schemas ++ schemas') (targets ++ targets') redirected
      (make value other) (make value' other') where
  fits := forall_mem_append.mpr
    ⟨fun schema member => (reading.fits schema member).mono (subset_append_left _ _),
      fun schema member => (reading'.fits schema member).mono (subset_append_right _ _)⟩
  told := forall_mem_append.mpr
    ⟨fun key member => (reading.told key member).imp fun _ => And.imp_left (mem_append_left _),
      fun key member => (reading'.told key member).imp fun _ =>
        And.imp_left (mem_append_right _)⟩
  kept holds := by
    refine forall_mem_append.mpr ⟨fun answer given => ?_, fun answer given => ?_⟩
    · exact (reading.kept holds answer given).imp (Exists.imp fun _ =>
        And.imp_left (mem_append_left _)) (mem_append_left _)
    · exact (reading'.kept holds answer given).imp (Exists.imp fun _ =>
        And.imp_left (mem_append_right _)) (mem_append_right _)
  alike here there agree := by
    obtain ⟨early, late⟩ := forall_mem_append.mp agree
    rw [kept, kept, reading.alike here there early, reading'.alike here there late]
  same agree := by
    obtain ⟨early, late⟩ := forall_mem_append.mp agree
    rw [reading.same early, reading'.same late]

end

def OfNode (promise : Promise) (answers : Answers) (node node' : Node) : Prop :=
  Reading promise answers [node] [] Node.redirect node node'

def OfNodes (promise : Promise) (answers : Answers) (nodes nodes' : List Node) : Prop :=
  Reading promise answers nodes [] redirectList nodes nodes'

def OfTags (promise : Promise) (answers : Answers) (tags tags' : Option Discriminator) : Prop :=
  Reading promise answers [] (Discriminator.targetsOf tags)
    (fun change => Option.map (Discriminator.redirect change)) tags tags'

/-- Properties under the texts that are their names. -/
def keyed (named : List (String × Node)) : List (Scalar × Node) :=
  named.map fun property => (.str property.1, property.2)

/-- The parts of a schema that is no reference are its children and its own targets. -/
theorem Reading.whole
    (parts : Reading promise answers node.children (node.ownTargets true) Node.redirect node node')
    (bare : node.target? = none)
    (noted : promise.json → ∀ scalar ∈ node.ownScalars, scalar.isJson = true) :
    OfNode promise answers node node' where
  fits := forall_mem_singleton.mpr (.of_children parts.fits parts.told bare noted)
  told := forall_mem_nil _
  kept holds answer given := by
    refine .inl ⟨node, mem_singleton_self node, ?_⟩
    rw [Node.mentions_eq, mem_append, mem_flatMap]
    exact parts.kept holds answer given
  alike := parts.alike
  same := parts.same

theorem OfNode.fits (read : OfNode promise answers node node') : Fits promise answers node :=
  Reading.fits read node (mem_singleton_self node)

theorem OfNode.mentions_of_answer (read : OfNode promise answers node node')
    (apart : promise.apart) {answer : Target × Target} (given : answer ∈ answers) :
    answer.1.key ∈ node.mentions true := by
  simpa using Reading.kept read apart answer given

theorem OfNode.reference (target target' : Target) (noted : promise.json → note.IsJson) :
    OfNode promise [(target, target')] (.reference note target.key target.forward)
      (.reference note target'.key target'.forward) where
  fits := by
    refine forall_mem_singleton.mpr ⟨by simp [Node.mentions], ?_, ?_, noted⟩
    · cases forward : target.forward <;> simp [Node.mentions, forward]
    · obtain ⟨own, forward⟩ := target
      rintro key ⟨_, inside⟩
      cases inside with
      | itself => exact ⟨_, mem_singleton_self _, rfl, rfl⟩
      | child member => cases member
  told := forall_mem_nil _
  kept := by simp [Node.mentions]
  alike here there agree := by
    simp only [Node.redirect, agree _ mem_cons_self]
  same agree := by
    have told : target = target' := agree _ mem_cons_self
    rw [told]

theorem OfTags.none : OfTags promise [] Option.none Option.none :=
  Reading.still fun _ => rfl

theorem OfNodes.nil : OfNodes promise [] [] [] :=
  .still fun _ => rfl

theorem OfNodes.cons (head : OfNode promise answers node node')
    (tail : OfNodes promise more nodes nodes') :
    OfNodes promise (answers ++ more) (node :: nodes) (node' :: nodes') :=
  head.append tail List.cons fun _ _ _ => rfl

theorem OfNodes.concat (front : OfNodes promise answers nodes nodes')
    (last : OfNode promise more node node') :
    OfNodes promise (answers ++ more) (nodes ++ [node]) (nodes' ++ [node']) :=
  front.append last (fun nodes node => nodes ++ [node]) fun change nodes node => by
    simp [Node.redirectList_eq]

theorem OfNodes.properties {named named' : List (String × Node)}
    (members : OfNodes promise answers ((keyed named).map (·.2)) ((keyed named').map (·.2)))
    (keys : (keyed named).map (·.1) = (keyed named').map (·.1)) :
    Reading promise answers (named.map (·.2)) [] redirectProperties named named' := by
  have names : named.map (·.1) = named'.map (·.1) := by
    simpa [keyed, Function.comp_def, Scalar.text] using congrArg (map Scalar.text) keys
  simp only [keyed, map_map, Function.comp_def] at members
  refine ⟨members.fits, members.told, members.kept, fun here there agree => ?_, fun agree => ?_⟩
  · have alike := members.alike here there agree
    rw [redirectList_eq, redirectList_eq] at alike
    rw [redirectProperties_eq, redirectProperties_eq, names, alike]
  · rw [← zip_unzip named, ← zip_unzip named', unzip_eq_map, unzip_eq_map,
      names, members.same agree]

theorem OfNodes.typeArray (members : OfNodes promise answers nodes nodes')
    (noted : promise.json → note.IsJson) :
    OfNode promise answers (.typeArray note nodes) (.typeArray note nodes') :=
  (members.build (Node.typeArray note) fun _ _ => rfl).whole rfl noted

theorem OfNodes.composition (members : OfNodes promise answers nodes nodes')
    (told : OfTags promise more tags tags') (noted : promise.json → note.IsJson)
    (mode : Composition) :
    OfNode promise (answers ++ more) (.composition note mode nodes tags)
      (.composition note mode nodes' tags') := by
  have parts := members.append told (Node.composition note mode)
    (fun _ _ _ => rfl : ∀ change _ _, Node.redirect change _ = _)
  rw [append_nil] at parts
  exact parts.whole rfl noted

end Built

/-! ## Parts of schemas -/

theorem code_of_mem_unsupported {schema : Value} {place : String} {diagnostic : Diagnostic}
    (member : diagnostic ∈ unsupported schema place) : diagnostic.code = .unsupportedKeyword := by
  obtain ⟨keyword, _, rfl⟩ := mem_map.mp member
  rfl

/-- An array schema is built whatever its items are, or not at all. -/
theorem arrayNode_cases (schema : Value) (note : Note) :
    (∃ least most unique, ∀ items,
      arrayNode schema note items = .ok (.array note items least most unique)) ∨
    ∃ fault, (∀ cause, fault ≠ Fault.resolution cause) ∧
      ∀ items, arrayNode schema note items = .error fault := by
  unfold arrayNode
  dsimp only
  split
  · exact .inl ⟨_, _, _, fun _ => rfl⟩
  · refine .inr ⟨_, ?_, fun _ => rfl⟩
    rintro cause ⟨⟩

theorem primitiveNode_cases (schema : Value) (note : Note) (kind : PrimitiveKind) :
    (∃ format constraints,
      primitiveNode schema note kind = .ok (.primitive note kind format constraints)) ∨
    ∃ fault, (∀ cause, fault ≠ Fault.resolution cause) ∧
      primitiveNode schema note kind = .error fault := by
  unfold primitiveNode
  cases limits : Constraints.ofSchema schema with
  | ok constraints => exact .inl ⟨_, constraints, rfl⟩
  | error fault =>
    refine .inr ⟨fault, ?_, rfl⟩
    rintro cause rfl
    rw [Constraints.ofSchema, Constraints.ofEntries] at limits
    split at limits <;> cases limits

theorem isJson_constraints (constraints : Constraints) :
    ∀ scalar ∈ constraints.scalars, scalar.isJson = true := by
  intro scalar member
  obtain ⟨number, -, same⟩ := mem_filterMap.mp member
  obtain ⟨value, -, rfl⟩ := Option.map_eq_some_iff.mp same
  rfl

theorem isJson_enumeration? {schema : Value} (json : schema.IsJson) (noted : (noteOf schema).IsJson)
    {node : Node} (found : enumeration? schema = some node) : node.IsJson := by
  unfold enumeration? at found
  split at found
  next values listed =>
    cases found
    exact forall_mem_append.mpr ⟨noted, json.get? listed⟩
  next =>
    split at found
    next values listed =>
      cases found
      exact forall_mem_append.mpr ⟨noted, json.get? listed⟩
    next =>
      obtain ⟨value, stored, rfl⟩ := Option.map_eq_some_iff.mp found
      have single : ∀ scalar ∈ Value.scalarsList [value], scalar.isJson = true := by
        simpa [Value.scalarsList, Value.IsJson] using json.get? stored
      exact forall_mem_append.mpr ⟨noted, single⟩

/-- An object schema is built whatever the schemas of its properties are, or not at all. -/
theorem objectNode_cases (keys : List Scalar) (note : Note) (required : List String)
    (declared : Bool) (title : Option Value) :
    (∃ title', ∀ properties, properties.map (·.1) = keys → ∃ named, properties = keyed named ∧
      ∀ extras, objectNode note properties required extras declared title =
        .ok (.object note named required extras declared title')) ∨
    ∃ fault, (∀ cause, fault ≠ Fault.resolution cause) ∧
      ∀ properties, properties.map (·.1) = keys → ∀ extras,
        objectNode note properties required extras declared title = .error fault := by
  -- Whether an object is built depends on the keys and the title, not on the schemas.
  by_cases texts : ∀ key ∈ keys, key = .str key.text
  · have named (properties : List (Scalar × Node)) (same : properties.map (·.1) = keys) :
        ∃ named, properties = keyed named := by
      refine ⟨properties.map fun property => (property.1.text, property.2), ?_⟩
      subst same
      rw [keyed, map_map]
      conv_lhs => rw [← map_id properties]
      exact map_congr_left fun property member =>
        Prod.ext (texts property.1 (mem_map_of_mem member)) rfl
    cases titled : optional text title with
    | ok title' =>
      refine .inl ⟨title', fun properties same => ?_⟩
      obtain ⟨named, rfl⟩ := named properties same
      refine ⟨named, rfl, fun extras => ?_⟩
      simp [objectNode, keyed, Function.comp_def, titled]
    | error fault =>
      refine .inr ⟨.invalid .object (problem? "title" (optional text title)),
        by rintro cause ⟨⟩, fun properties same extras => ?_⟩
      obtain ⟨named, rfl⟩ := named properties same
      simp [objectNode, keyed, Function.comp_def, titled]
  · push Not at texts
    obtain ⟨key, member, other⟩ := texts
    refine .inr ⟨.invalid .object ({ field := "properties", fault := .notText } ::
      problem? "title" (optional text title)), by rintro cause ⟨⟩,
      fun properties same extras => ?_⟩
    simp only [objectNode]
    rw [if_pos]
    · cases optional text title <;> rfl
    · obtain ⟨property, inside, rfl⟩ := mem_map.mp (same ▸ member)
      refine any_eq_true.mpr ⟨none, mem_map.mpr ⟨property, inside, ?_⟩, rfl⟩
      cases named : property.1 with
      | str text => simp [named, Scalar.text] at other
      | _ => rfl

theorem noResolution_requiredNames (schema : Value) : NoResolutionFault (requiredNames schema) := by
  refine NoFault.bind ?_ fun _ => .ok _
  cases (schema.get? "required").filter Value.isTruthy with
  | none => exact .ok _
  | some value =>
    rw [Value.itemsOrNone]
    unfold Value.needItems
    split <;> rintro cause ⟨⟩

theorem noResolution_mappingReference (value : Value) :
    NoResolutionFault (mappingReference value) := by
  have held (text : String) : NoResolutionFault (value.holdsText text) := by
    unfold Value.holdsText
    split <;> rintro cause ⟨⟩
  unfold mappingReference
  split
  · rintro cause ⟨⟩
  · refine NoFault.bind (held "#") fun marked => ?_
    refine NoFault.bind (held "/") fun slashed => ?_
    dsimp only
    split <;> rintro cause ⟨⟩

end Schema

end Bindery

import Mathlib
import Bindery.Proofs.Dialect.Idempotence
import Bindery.Proofs.Operation.Analysis
import Bindery.Proofs.Resolution.Traces

/-!
# Objects of other documents

Parameters, request bodies and responses may stand in another document than the
operation that refers to them.  That one was not brought to the 3.1 shape, and an
object that is reached by following references is read as it is written.  So an
object of a 3.0 document gives the same schemas in a run over its own document and
in a run over another one only if the conversion makes no difference to them.
-/

namespace Bindery

open Resolving List Sources Run Schema Value Reference

namespace Schema

/-- A schema as it is read with its targets replaced, whatever else is registered. -/
def sketch (change : String → String) (schema : Value) : Except Fault Node :=
  (outline schema).1.map (Node.redirect change)

end Schema

variable {schema : Value} {place text : String} {reference : Reference}

namespace Resolving

variable {sources : Sources} {findings : Findings}

/-- A schema is read as its sketch. -/
theorem read_sketch (ample : nestingBound sources + 2 ≤ sources.bound) {later : Findings}
    (steady : findings.Steady sources) {base : String} {node : Node}
    (ran : (read sources schema base place).start findings = (.ok node, later)) :
    later.Steady sources ∧
      sketch (sources.keyAt (baseOf sources base)) schema = .ok (node.redirect id) := by
  obtain ⟨kept, outlined, asked, answers, outline, read, agree⟩ :=
    (read_steady ample steady schema base place).2 node later ran
  refine ⟨kept, ?_⟩
  rw [sketch, outline, read.alike id _ agree]
  rfl

/-! ## Following one reference -/

theorem Looks.steady {α : Type} {step : Resolving α} {value : α}
    (looks : Looks sources step (.ok value))
    (keeps : (course sources).Keeps (fun _ => True) step fun _ _ => True)
    (steady : findings.Steady sources) :
    ∃ later, later.Steady sources ∧ step.start findings = (.ok value, later) := by
  obtain ⟨cache, agrees, ran⟩ := looks findings steady.agrees
  have kept := keeps findings steady.sound trivial
  rw [ran] at kept
  exact ⟨_, ⟨(kept.ok value rfl).1.2 steady.sound, agrees⟩, ran⟩

/-- Following a reference to an object that is no reference leads to the object as it stands in its
document. -/
theorem follow_looks {raw : Value} {base : String} {object : Entries}
    (refers : raw.get? "$ref" = some (.str text))
    (named : ofText sources.working text (baseOf sources base) = .ok reference)
    (found : sources.targetAt text reference = .ok (.map object)) (own : object.get? "$ref" = none) :
    Looks sources (follow sources raw base) (.ok (.map object, reference.location)) := by
  intro findings agrees
  obtain ⟨cache, agrees', looked⟩ := target_looks text reference findings agrees
  refine ⟨cache, agrees', ?_⟩
  have ended : ∀ fuel visited, followWithin sources fuel visited (.map object) reference.location =
      (pure (.map object, reference.location) : Resolving _) := by
    intro fuel visited
    unfold followWithin
    simp [get?, own]
  rw [follow, followLimit]
  unfold followWithin
  simp only [refers, start_bind, named, start_ofExcept]
  rw [if_neg (by simp), start_bind, looked, found]
  simp only [ended, start_pure]

end Resolving

/-! ## Objects with schemas -/

namespace Analysis

open Dialect

/-- The kinds of objects with schemas that a reference can stand for; a response has a code. -/
inductive Part where
  | parameter
  | body
  | response (code : Scalar)

/-- Whether a parameter is read: its place is known, and it is no header that is carried anyway. -/
def isRead (parameter : Entries) : Bool :=
  match ((parameter.get? "in").getD (.str "query")).toText?.bind ParameterPlace.ofText? with
  | none => false
  | some place =>
    !(place = .header &&
      match isIgnoredHeader ((parameter.get? "name").getD (.str "")) with
      | .ok ignored => ignored
      | .error _ => false)

def contentSchemas (content : Option Value) : List Value :=
  ((content.bind toEntries?).getD []).map fun entry => (entry.2.get? "schema").getD (.map [])

namespace Part

def sectionName : Part → String
  | .parameter => "parameters"
  | .body => "requestBodies"
  | .response _ => "responses"

def schemas : Part → Entries → List Value
  | .parameter, object => if isRead object then [parameterSchema object] else []
  | .body, object => contentSchemas (object.get? "content")
  | .response _, object => contentSchemas (object.get? "content")

/-- The schemas that are read from an object of an operation, or from what it refers to. -/
def nodes (sources : Sources) (raw : Value) (base heading : String) : Part → Resolving (List Node)
  | .parameter => do
    let placed ← followAll sources base [raw]
    return (← readParameters sources placed heading).map (·.schema)
  | .body => do
    return ((← readBody sources raw base heading).map fun body =>
      body.content.map (·.schema)).getD []
  | .response code => do
    return (← readResponses sources base heading [(code, raw)]).flatMap fun response =>
      response.content.map (·.schema)

end Part

variable {sources : Sources}

variable {base : String} {findings later : Findings}

variable {entries : Entries} {content : List Media} {parameter : Option Parameter}
  {heading : String} {nodes : List Node}

theorem mapM_sketches (ample : nestingBound sources + 2 ≤ sources.bound)
    (steady : findings.Steady sources) (ran : (entries.mapM fun entry => do
      let schema ← read sources ((entry.2.get? "schema").getD (.map [])) base
        (place ++ " " ++ entry.1.text)
      match entry.1 with
      | .str contentType => return { contentType, schema }
      | _ => throw (.invalid .media [{ field := "content_type", fault := .notText }]) :
        Resolving (List Media)).start findings = (.ok content, later)) :
    content.map (fun media => .ok (media.schema.redirect id)) =
      (entries.map fun entry => (entry.2.get? "schema").getD (.map [])).map
        (sketch (sources.keyAt (baseOf sources base))) := by
  induction entries generalizing findings content with
  | nil =>
    rw [mapM_nil] at ran
    cases ran
    rfl
  | cons entry rest ih =>
    rw [mapM_cons] at ran
    obtain ⟨media, middle, here, ran⟩ := start_bind_ok ran
    obtain ⟨others, _, there, ended⟩ := start_bind_ok ran
    cases ended
    obtain ⟨node, between, read, built⟩ := start_bind_ok here
    obtain ⟨kept, sketched⟩ := read_sketch ample steady read
    split at built
    next contentType _ =>
      cases built
      rw [map_cons, map_cons, map_cons, ih kept there, sketched]
    next => cases built

theorem readContent_sketches (ample : nestingBound sources + 2 ≤ sources.bound) {raw : Option Value}
    (steady : findings.Steady sources)
    (ran : (readContent sources raw base place).start findings = (.ok content, later)) :
    content.map (fun media => .ok (media.schema.redirect id)) =
      (contentSchemas raw).map (sketch (sources.keyAt (baseOf sources base))) :=
  mapM_sketches ample steady ran

variable {object : Entries}

/-- A parameter is built with what its schema is read as. -/
theorem parameterOf_sketches (ample : nestingBound sources + 2 ≤ sources.bound) {spot : String}
    {place : ParameterPlace} {name : Value} (steady : findings.Steady sources)
    (ran : (do let node ← read sources schema base spot return some (← Run.ofExcept
      (parameterOf object place name node)) : Resolving (Option Parameter)).start findings = (.ok
      parameter, later)) :
    parameter.toList.map (fun parameter => .ok (parameter.schema.redirect id)) =
      [schema].map (sketch (sources.keyAt (baseOf sources base))) := by
  obtain ⟨node, middle, read, ran⟩ := Run.start_bind_ok ran
  obtain ⟨built, _, made, ended⟩ := Run.start_bind_ok ran
  obtain ⟨returned, rfl⟩ := Prod.mk.inj made
  cases ended
  rw [map_singleton, (read_sketch ample steady read).2,
    ← parameterOf_schema returned]
  rfl

theorem readParameter_sketches (ample : nestingBound sources + 2 ≤ sources.bound)
    (steady : findings.Steady sources)
    (ran : (readParameter sources (object, base) heading).start findings = (.ok parameter, later)) :
    parameter.toList.map (fun parameter => .ok (parameter.schema.redirect id)) =
      (Part.parameter.schemas object).map
        (sketch (sources.keyAt (baseOf sources base))) := by
  simp only [readParameter] at ran
  rw [Part.schemas]
  split at ran
  next unplaced =>
    have left : isRead object = false := by rw [isRead, unplaced]
    cases ran
    rw [left]
    rfl
  next place placed =>
    split at ran
    next header =>
      obtain ⟨ignored, _, checked, onward⟩ := start_bind_ok ran
      obtain ⟨tested, rfl⟩ := Prod.mk.inj checked
      have taken : isRead object = !ignored := by
        rw [isRead, placed]
        simp [header, tested]
      rw [taken]
      cases ignored with
      | true =>
        cases onward
        rfl
      | false => exact parameterOf_sketches ample steady onward
    next other =>
      have taken : isRead object = true := by
        rw [isRead, placed]
        simp [other]
      rw [taken]
      exact parameterOf_sketches ample steady ran

variable {part : Part}

/-- The schemas of an object are read as they stand in the object that is reached. -/
theorem nodes_sketches (ample : nestingBound sources + 2 ≤ sources.bound) {raw : Value}
    {location : String} {middle : Findings} (steady : middle.Steady sources)
    (followed : (follow sources raw base).start findings = (.ok (.map object, location), middle))
    (ran : (part.nodes sources raw base heading).start findings = (.ok nodes, later))
    (present : raw ≠ .null) : nodes.map (fun node => .ok (node.redirect id)) =
      (part.schemas object).map
        (sketch (sources.keyAt (baseOf sources location))) := by
  cases part with
  | parameter =>
    obtain ⟨placed, between, listed, ran⟩ := start_bind_ok ran
    obtain ⟨parameters, _, read, ended⟩ := start_bind_ok ran
    cases ended
    simp only [followAll, start_bind, followed, start_pure] at listed
    cases listed
    obtain ⟨results, _, each, ended⟩ := start_bind_ok read
    cases ended
    rw [mapM_cons, mapM_nil] at each
    obtain ⟨parameter, _, here, rest⟩ := start_bind_ok each
    cases rest
    rw [← readParameter_sketches ample steady here]
    cases parameter with
    | none => rfl
    | some _ => rfl
  | body =>
    obtain ⟨body, _, read, ended⟩ := start_bind_ok ran
    cases ended
    rw [readBody, if_neg present, start_bind, followed] at read
    obtain ⟨content, _, here, rest⟩ := start_bind_ok read
    obtain ⟨description, _, _, rest⟩ := start_bind_ok rest
    cases rest
    rw [Part.schemas, ← readContent_sketches ample steady here, Option.map_some, Option.getD_some,
      map_map]
    rfl
  | response code =>
    obtain ⟨responses, _, read, ended⟩ := start_bind_ok ran
    cases ended
    rw [readResponses, start_bind, followed] at read
    obtain ⟨content, _, here, rest⟩ := start_bind_ok read
    obtain ⟨description, _, _, rest⟩ := start_bind_ok rest
    cases rest
    rw [Part.schemas, ← readContent_sketches ample steady here, flatMap_singleton,
      map_map]
    rfl

/-! ## Converted objects -/

/-- What the conversion from 3.0 makes of an object of the components. -/
def Part.upgrade : Part → Entries → Entries
  | .parameter, object =>
    atKey "content" upgradeContent
      (atKey "schema" upgradeSchema object)
  | .body, object => atKey "content" upgradeContent object
  | .response _, object =>
    atKey "headers" (onValues upgradeParameter)
      (atKey "content" upgradeContent object)

/-- The conversion does not touch the keys that tell what an object is. -/
theorem get?_upgrade (part : Part) {name : String} (other : name ∉ ["schema", "content", "headers"])
    (object : Entries) : (part.upgrade object).get? name = object.get? name := by
  simp only [mem_cons, not_mem_nil, or_false, not_or] at other
  cases part <;> simp [Part.upgrade, get?_atKey, other]

theorem upgradeSchema_nil : upgradeSchema (.map []) = .map [] := by
  with_unfolding_all rfl

theorem get?_upgradeMedia (media : Value) :
    ((upgradeMedia media).get? "schema") =
      (media.get? "schema").map upgradeSchema := by
  cases media with
  | map entries => simp [upgradeMedia, get?, get?_atKey]
  | scalar _ => rfl
  | list _ => rfl

theorem contentSchemas_upgrade (content : Option Value) :
    contentSchemas (content.map upgradeContent) =
      (contentSchemas content).map upgradeSchema := by
  cases content with
  | none => rfl
  | some value =>
    cases value with
    | map entries =>
      simp only [contentSchemas, Option.map_some, upgradeContent, onValues,
        Option.bind_some, toEntries?, Option.getD_some, map_map]
      refine map_congr_left fun entry _ => ?_
      simp only [Function.comp_apply, get?_upgradeMedia]
      cases entry.2.get? "schema" with
      | none => exact upgradeSchema_nil.symm
      | some schema => rfl
    | scalar _ => rfl
    | list _ => rfl

theorem isRead_upgrade (object : Entries) :
    isRead (Part.parameter.upgrade object) = isRead object := by
  simp only [isRead, get?_upgrade Part.parameter (by decide : "in" ∉ _),
    get?_upgrade Part.parameter (by decide : "name" ∉ _)]

/-- The first schema of a content map. -/
def firstSchema? (content : Option Value) : Option Value := do
  let entries ← (← content).toEntries?
  entries.findSome? fun media => media.2.get? "schema"

theorem firstSchema?_upgrade (content : Option Value) :
    firstSchema? (content.map upgradeContent) =
      (firstSchema? content).map upgradeSchema := by
  cases content with
  | none => rfl
  | some value =>
    cases value with
    | map entries =>
      show findSome? _ (map _ entries) = Option.map _ (findSome? _ entries)
      rw [findSome?_map, map_findSome?]
      congr 1
      funext media
      exact get?_upgradeMedia media.2
    | scalar _ => rfl
    | list _ => rfl

/-- A schema that counts as present, or else the empty one. -/
def presentSchema (schema : Value) : Value :=
  if schema.isTruthy then schema else .map []

theorem presentSchema_upgrade (schema : Value) :
    presentSchema (upgradeSchema schema) =
      upgradeSchema (presentSchema schema) := by
  have kept (same : upgradeSchema schema = schema) :
      presentSchema (upgradeSchema schema) =
        upgradeSchema (presentSchema schema) := by
    rw [same, presentSchema]
    split
    · exact same.symm
    · exact upgradeSchema_nil.symm
  cases schema with
  | scalar _ => exact kept rfl
  | list _ => exact kept rfl
  | map entries =>
    cases entries with
    | nil => exact kept upgradeSchema_nil
    | cons entry rest =>
      -- The converted schema may have lost its entries, and then it is the empty one as well.
      have present : presentSchema (.map (entry :: rest)) = .map (entry :: rest) := rfl
      rw [present]
      show presentSchema (.map _) = .map _
      unfold presentSchema
      split
      next => rfl
      next empty => simpa [isTruthy] using empty

theorem parameterSchema_eq (object : Entries) :
    parameterSchema object = presentSchema
      (((object.get? "schema").filter (· ≠ .null)).getD
        ((firstSchema? (object.get? "content")).getD .null)) := by
  unfold parameterSchema presentSchema
  cases (object.get? "schema").filter (· ≠ .null) <;> rfl

theorem filter_upgradeSchema (schema : Option Value) :
    (schema.map upgradeSchema).filter (· ≠ .null) =
      (schema.filter (· ≠ .null)).map upgradeSchema := by
  cases schema with
  | none => rfl
  | some value =>
    have same : decide (upgradeSchema value ≠ .null) = decide (value ≠ .null) := by
      cases value with
      | scalar _ => rfl
      | list _ => rfl
      | map entries => simp [upgradeSchema, walk]
    simp only [Option.map_some, Option.filter_some, same]
    split <;> rfl

theorem parameterSchema_upgrade (object : Entries) :
    parameterSchema (Part.parameter.upgrade object) =
      upgradeSchema (parameterSchema object) := by
  have schema : (Part.parameter.upgrade object).get? "schema" =
      (object.get? "schema").map upgradeSchema := by
    simp [Part.upgrade, get?_atKey]
  have content : (Part.parameter.upgrade object).get? "content" =
      (object.get? "content").map upgradeContent := by
    simp [Part.upgrade, get?_atKey]
  rw [parameterSchema_eq, parameterSchema_eq, schema, content, filter_upgradeSchema,
    firstSchema?_upgrade, ← presentSchema_upgrade]
  congr 1
  cases (object.get? "schema").filter (· ≠ .null) with
  | some _ => rfl
  | none =>
    cases firstSchema? (object.get? "content") with
    | some _ => rfl
    | none => rfl

theorem schemas_upgrade (part : Part) (object : Entries) :
    part.schemas (part.upgrade object) = (part.schemas object).map upgradeSchema := by
  cases part with
  | parameter =>
    simp only [Part.schemas, isRead_upgrade, parameterSchema_upgrade]
    split <;> rfl
  | body =>
    have content : (Part.body.upgrade object).get? "content" =
        (object.get? "content").map upgradeContent := by
      simp [Part.upgrade, get?_atKey]
    rw [Part.schemas, Part.schemas, content, contentSchemas_upgrade]
  | response code =>
    have content : ((Part.response code).upgrade object).get? "content" =
        (object.get? "content").map upgradeContent := by
      simp [Part.upgrade, get?_atKey]
    rw [Part.schemas, Part.schemas, content, contentSchemas_upgrade]

/-! ## Objects at home and abroad -/

/-- An object of an operation refers to another one, and a run reads the schemas of that one. -/
inductive Part.Obtains (part : Part) (sources : Sources) (reference : Reference)
    (nodes : List Node) : Prop
  | intro {raw : Value} {text base heading : String} {findings later : Findings}
    (refers : raw.get? "$ref" = some (.str text))
    (named : ofText sources.working text (baseOf sources base) = .ok reference)
    (steady : findings.Steady sources)
    (ran : (part.nodes sources raw base heading).start findings = (.ok nodes, later))

/-- The schemas that are obtained are those of the object as it stands in its document. -/
theorem Part.Obtains.sketches {library : Library} {working : List String} {root : NormalDocument}
    {document : Value} (obtained : part.Obtains (of library working root) reference nodes)
    (given : reference.location ≠ "")
    (provided : (of library working root).documentAt reference.location = .ok document)
    (found : Pointer.resolve text document reference.pointer = .ok (.map object))
    (own : object.get? "$ref" = none) : nodes.map (fun node => .ok (node.redirect id)) =
      (part.schemas object).map
        (sketch ((of library working root).keyAt reference.location)) := by
  obtain @⟨raw, written, base, heading, findings, later, refers, named, steady, ran⟩ := obtained
  have targeted := targetAt_of_resolve provided found written
  have present : raw ≠ .null := by
    rintro rfl
    cases refers
  obtain ⟨middle, kept, followed⟩ :=
    (follow_looks refers named targeted own).steady
      (course_cached.follow raw base) steady
  rw [nodes_sketches (Nat.le_refl _) kept followed ran present, baseOf, if_neg given]

/-- A pointer leads to an object of the components, in the section for its kind. -/
def Part.Stands (part : Part) (entries : Entries) (pointer : String) (object : Entries) : Prop :=
  ∃ (name : String) (components objects : Entries),
    Pointer.segments pointer = ["components", part.sectionName, name] ∧
      entries.get? "components" = some (.map components) ∧
      components.get? part.sectionName = some (.map objects) ∧
      objects.get? name = some (.map object)

/-- What the conversion from 3.0 makes of the objects in a section. -/
theorem get?_upgradeComponents {components objects : Entries}
    (present : components.get? part.sectionName = some (.map objects)) :
    (upgradeComponents (.map components)).get? part.sectionName =
      some (onValues (unlessReference part.upgrade) (.map objects)) := by
  cases part <;>
    simp_all [Part.sectionName, upgradeComponents, get?, get?_atKey] <;> rfl

theorem step_of_get? {segment : String} {value found : Value}
    (present : value.get? segment = some found) : Pointer.step text value segment = .ok found := by
  cases value with
  | map entries =>
    have present : Entries.get? segment entries = some found := present
    rw [Pointer.step, present]
  | scalar _ => cases present
  | list _ => cases present

/-- A pointer into the components of a 3.0 document leads to the converted object after the
document was converted. -/
theorem Part.Stands.resolve_upgradeEntries {pointer : String}
    (stands : part.Stands entries pointer object) (own : object.get? "$ref" = none) (text : String) :
    Pointer.resolve text (.map (upgradeEntries entries)) pointer =
      .ok (.map (part.upgrade object)) := by
  obtain ⟨name, components, objects, placed, inside, listed, named⟩ := stands
  have outer : (map (upgradeEntries entries)).get? "components" =
      some (upgradeComponents (.map components)) := by
    simp [get?, upgradeEntries, get?_atKey, Entries.get?_set, inside]
  have middle := get?_upgradeComponents listed
  have changed : unlessReference part.upgrade (.map object) =
      .map (part.upgrade object) := by
    rw [unlessReference, if_neg]
    simp [Entries.has, own]
  have inner : (onValues (unlessReference part.upgrade) (.map objects)).get? name =
      some (.map (part.upgrade object)) := by
    rw [← changed]
    show Entries.get? name (objects.map _) = _
    rw [Entries.get?_map (fun _ => unlessReference part.upgrade), named]
    rfl
  rw [Pointer.resolve, placed, Pointer.walk, step_of_get? outer]
  simp only [Pointer.walk, step_of_get? middle, step_of_get? inner]

/-! ## A bound that is lost abroad -/

/-- A parameter with a lower bound that is exclusive, in the way of 3.0. -/
def boundParameter : Entries :=
  [(.str "name", .str "q"), (.str "in", .str "query"),
    (.str "schema", .map [(.str "type", .str "number"), (.str "minimum", .scalar (.int 0)),
      (.str "exclusiveMinimum", .bool true)])]

def boundEntries : Entries :=
  [(.str "openapi", .str "3.0.0"), (.str "info", .map []),
    (.str "components", .map [(.str "parameters", .map [(.str "P", .map boundParameter)])])]

def boundLibrary : Library where
  documents := [("/e", .ok (.map boundEntries))]

def boundHome : NormalDocument where
  location := "/e"
  dialect := .v30
  root := upgradeEntries boundEntries

def boundAway : NormalDocument where
  location := "/a"
  dialect := .v30
  root := [(.str "openapi", .str "3.1.0"), (.str "info", .map [])]

def boundRead (constraints : Constraints) : Parameter where
  name := "q"
  place := .query
  required := false
  description := none
  deprecated := false
  schema := .primitive {} .number none constraints

theorem obtains_parameter (text : String)
    (named : ofText sources.working text sources.root.location = .ok reference)
    (ran : ((Part.parameter.nodes sources (.map [(.str "$ref", .str text)]) "" "").start
      (Findings.start sources)).1 = .ok nodes) :
    Part.parameter.Obtains sources reference nodes := by
  have refers : (map [(.str "$ref", .str text)]).get? "$ref" = some (.str text) := rfl
  have named : ofText sources.working text (baseOf sources "") =
      .ok reference := named
  exact .intro refers named (Findings.Steady.start sources) (start_of_fst ran)

theorem boundAway_obtains :
    Part.parameter.Obtains (of boundLibrary [] boundAway)
      ⟨"/e", "/components/parameters/P"⟩
      [(boundRead { minimum := some (.zero false) }).schema] :=
  obtains_parameter "e#/components/parameters/P" (by decide +kernel) (by decide +kernel)

theorem boundHome_obtains :
    Part.parameter.Obtains (of boundLibrary [] boundHome)
      ⟨"/e", "/components/parameters/P"⟩
      [(boundRead { exclusiveMinimum := some (.zero false) }).schema] :=
  obtains_parameter "#/components/parameters/P" (by decide +kernel) (by decide +kernel)

theorem boundHome_normal :
    NormalDocument.ofDocument (.map boundEntries) "/e" = .ok (boundHome, []) :=
  rfl

/-! ## When the schemas are alike -/

/-- An operation obtains the same schemas from an object of another document as an operation of
that document, if and only if the object as it is written has the schemas that the converted one
has.  In a 3.0 document this is so if and only if converting the schemas of the object makes no
difference to them. -/
theorem obtained_alike_iff {library : Library} {working : List String} {root home : NormalDocument}
    {location pointer pointer' text text' : String} {entries object object' : Entries}
    {told : List Diagnostic} {part : Part} {nodes nodes' : List Node}
    (loaded : library.load location = .ok (.map entries))
    (normal : NormalDocument.ofDocument (.map entries) location = .ok (home, told))
    (elsewhere : location ≠ root.location) (given : location ≠ "")
    (found : Pointer.resolve text (.map entries) pointer = .ok (.map object))
    (own : object.get? "$ref" = none)
    (found' : Pointer.resolve text' home.tree pointer' = .ok (.map object'))
    (own' : object'.get? "$ref" = none)
    (abroad : part.Obtains (Sources.of library working root) ⟨location, pointer⟩ nodes)
    (settled : part.Obtains (Sources.of library working home) ⟨location, pointer'⟩ nodes') :
    let sketch := Schema.sketch ((Sources.of library working root).keyAt location)
    (nodes.map (Node.redirect id) = nodes'.map (Node.redirect id) ↔
      (part.schemas object).map sketch = (part.schemas object').map sketch) ∧
    (Dialect.ofEntries entries = .v30 → pointer' = pointer → part.Stands entries pointer object →
      (nodes.map (Node.redirect id) = nodes'.map (Node.redirect id) ↔
        ∀ schema ∈ part.schemas object,
          sketch schema = sketch (Dialect.upgradeSchema schema))) := by
  intro sketch
  obtain ⟨_, same, _, conversion, _, rfl, _⟩ := NormalDocument.ofDocument_eq_ok_iff.mp normal
  cases same
  have provided : (Sources.of library working root).documentAt home.location =
      .ok (.map entries) := by
    simp only [Sources.documentAt, Sources.of, if_neg elsewhere, loaded]
  have written := abroad.sketches given provided found own
  have converted := settled.sketches given (if_pos rfl) found' own'
  have alike : nodes.map (Node.redirect id) = nodes'.map (Node.redirect id) ↔
      (part.schemas object).map sketch = (part.schemas object').map sketch := by
    have injective : Function.Injective (List.map (Except.ok : Node → Except Fault Node)) :=
      List.map_injective_iff.mpr fun _ _ same => Except.ok.inj same
    rw [← injective.eq_iff, List.map_map, List.map_map]
    exact Eq.congr written converted
  refine ⟨alike, ?_⟩
  rintro declared rfl stands
  rw [declared] at conversion
  have upgraded : home.tree = .map (upgradeEntries entries) :=
    (Except.ok.inj conversion).symm
  have same : object' = part.upgrade object := by
    rw [upgraded, stands.resolve_upgradeEntries own text'] at found'
    exact (Value.map.inj (Except.ok.inj found')).symm
  rw [alike, same, schemas_upgrade, List.map_map, List.map_inj_left]
  rfl

/-- The objects of the examples fulfil what is assumed, so that their schemas are alike if and only
if converting them makes no difference. -/
theorem obtained_alike_iff_of_bound :
    let sketch := Schema.sketch ((Sources.of boundLibrary [] boundAway).keyAt "/e")
    [(boundRead { minimum := some (.zero false) }).schema].map (Node.redirect id) =
        [(boundRead { exclusiveMinimum := some (.zero false) }).schema].map (Node.redirect id) ↔
      ∀ schema ∈ Part.parameter.schemas boundParameter,
        sketch schema = sketch (Dialect.upgradeSchema schema) := by
  have stands : Part.parameter.Stands boundEntries "/components/parameters/P" boundParameter :=
    ⟨"P", _, _, by decide +kernel, rfl, rfl, rfl⟩
  have found : Pointer.resolve "" (.map boundEntries) "/components/parameters/P" =
      .ok (.map boundParameter) := by
    decide +kernel
  exact (obtained_alike_iff rfl boundHome_normal (by decide) (by decide) found rfl
    (stands.resolve_upgradeEntries rfl "") rfl boundAway_obtains boundHome_obtains).2
    (by decide +kernel) rfl stands

/-- The exclusive bound of a parameter is exclusive in its own document, and not when another
document refers to the parameter. -/
theorem exclusive_bound_lost_abroad :
    ∃ nodes nodes',
      Part.parameter.Obtains (Sources.of boundLibrary [] boundAway)
        ⟨"/e", "/components/parameters/P"⟩ nodes ∧
      Part.parameter.Obtains (Sources.of boundLibrary [] boundHome)
        ⟨"/e", "/components/parameters/P"⟩ nodes' ∧
      NormalDocument.ofDocument (.map boundEntries) "/e" = .ok (boundHome, []) ∧
      nodes.map (Node.redirect id) ≠ nodes'.map (Node.redirect id) := by
  refine ⟨_, _, boundAway_obtains, boundHome_obtains, boundHome_normal, ?_⟩
  intro same
  simp [boundRead, Node.redirect] at same

end Analysis

end Bindery

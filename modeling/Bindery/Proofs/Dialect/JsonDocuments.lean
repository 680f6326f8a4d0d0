import Bindery.Dialect.Normal
import Bindery.Proofs.Dialect.JsonSchemas

/-!
# Conversions of JSON documents

A 2.0 document that JSON has is brought to the 3.0 shape without leaving JSON,
and so every document that JSON has is brought to the 3.1 shape without leaving
JSON.  Bodies, forms, responses and components are put together from values of
the document, with texts, truth values and nulls added.

The steps may end in a fault, so the statements are about what a step returns if
it returns something.
-/

namespace Bindery.Dialect

open List Entries Value

/-- A result that is no fault has a property. -/
def Grants {α : Type} (result : Except Fault α) (fact : α → Prop) : Prop :=
  ∀ value, result = .ok value → fact value

namespace Grants

variable {α β : Type} {fact : α → Prop}

theorem ok {value : α} (holds : fact value) : Grants (.ok value) fact := by
  rintro _ ⟨⟩
  exact holds

theorem error {fault : Fault} : Grants (.error fault) fact :=
  nofun

theorem bind {last : β → Prop} {result : Except Fault α} {next : α → Except Fault β}
    (first : Grants result fact) (second : ∀ value, fact value → Grants (next value) last) :
    Grants (result >>= next) last := by
  intro value returned
  obtain ⟨middle, found, returned⟩ := ok_of_bind returned
  exact second middle (first middle found) value returned

variable {items : List β}

theorem mapM {step : β → Except Fault α} (each : ∀ item ∈ items, Grants (step item) fact) :
    Grants (items.mapM step) fun values => ∀ value ∈ values, fact value := by
  induction items with
  | nil =>
    rw [mapM_nil]
    exact ok (by simp)
  | cons item rest ih =>
    rw [mapM_cons]
    refine bind (each item mem_cons_self) fun head first => ?_
    refine bind (ih fun other member => each other (mem_cons_of_mem item member))
      fun tail others => ?_
    exact ok (forall_mem_cons.mpr ⟨first, others⟩)

/-- Every value of a list has a property when the next step comes. -/
theorem bind_mapM {γ : Type} (fact : α → Prop) {step : β → Except Fault α}
    {next : List α → Except Fault γ} {last : γ → Prop}
    (each : ∀ item ∈ items, Grants (step item) fact)
    (rest : ∀ values, (∀ value ∈ values, fact value) → Grants (next values) last) :
    Grants (items.mapM step >>= next) last :=
  bind (mapM each) rest

theorem foldlM {step : α → β → Except Fault α} {start : α} (holds : fact start)
    (each : ∀ value, fact value → ∀ item ∈ items, Grants (step value item) fact) :
    Grants (items.foldlM step start) fact := by
  induction items generalizing start with
  | nil => exact ok holds
  | cons item rest ih =>
    rw [foldlM_cons]
    refine bind (each start holds item mem_cons_self) fun value kept => ?_
    exact ih kept fun value held other member =>
      each value held other (mem_cons_of_mem item member)

end Grants

theorem grants_needEntries {value : Value} (json : value.IsJson) :
    Grants value.needEntries IsJson :=
  fun _ read => json.needEntries read

variable {entries : Entries} {step : Value → Except Fault Value}

theorem grants_entriesUnder (json : entries.IsJson) (name : String) :
    Grants (entriesOrNone (entries.present? name)) IsJson :=
  fun _ read => IsJson.entriesOrNone (fun _ found => json.present? found) read

theorem grants_itemsUnder (json : entries.IsJson) (name : String) :
    Grants (itemsOrNone (entries.present? name)) fun items => ∀ item ∈ items, item.IsJson :=
  fun _ read => IsJson.itemsOrNone (fun _ found => json.present? found) read

theorem grants_mapValues (json : entries.IsJson)
    (each : ∀ value : Value, value.IsJson → Grants (step value) IsJson) :
    Grants (entries.mapM fun entry => do return (entry.1, ← step entry.2)) IsJson :=
  .mapM fun entry member => .bind (each entry.2 (json entry member).2) fun _ part =>
    .ok ⟨(json entry member).1, part⟩

theorem isJson_defaultMediaTypes : defaultMediaTypes.IsJson := by
  simp [defaultMediaTypes]

theorem grants_serversUnder (document : Entries) (basePath : String) :
    Grants (match document.present? "host" with
      | none => return .list [.map [(.str "url", .str (if basePath = "" then "/" else basePath))]]
      | some host => do
        let schemes ← ((document.present? "schemes").getD (.list [.str "https"])).needItems
        return .list (schemes.map fun scheme =>
          .map [(.str "url", .str (scheme.text ++ "://" ++ host.text ++ basePath))])
      : Except Fault Value) IsJson := by
  split
  · exact .ok (by simp)
  · refine .bind (fun _ _ => trivial) fun schemes _ => .ok ?_
    simp

theorem grants_liftServers (document : Entries) : Grants (liftServers document) IsJson := by
  simp only [liftServers]
  split
  · exact grants_serversUnder document _
  · exact grants_serversUnder document _
  · exact .error
  · exact .error

section Parameters

variable {document parameter : Entries}

theorem grants_parameterTarget {raw : Value} (json : raw.IsJson) (known : document.IsJson) :
    Grants (parameterTarget raw document) IsJson := by
  refine .bind (grants_needEntries json) fun parameter own => ?_
  split
  · split
    · refine .bind (grants_entriesUnder known "parameters") fun parameters shared => ?_
      split
      next target stored => exact .ok (isJson_map.mp (shared.get? stored))
      next => exact .ok own
    · exact .ok own
  · exact .ok own

theorem isJson_liftParameterEntry {place : Option Value} {entry lifted : Scalar × Value}
    (key : entry.1.isJson = true) (part : entry.2.IsJson)
    (made : liftParameterEntry place entry = some lifted) :
    lifted.1.isJson = true ∧ lifted.2.IsJson := by
  unfold liftParameterEntry at made
  split at made
  · split at made
    · cases made
      simp
    · split at made
      · cases made
        simp
      · cases made
  · split at made
    · cases made
    · cases made
      exact ⟨key, part⟩

theorem isJson_liftParameter (json : parameter.IsJson) : (liftParameter parameter).IsJson := by
  have kept : IsJson ((parameter.filter fun entry =>
      !entry.1.isOneOf parameterSchemaKeys).filterMap
        (liftParameterEntry (parameter.get? "in"))) := by
    intro entry member
    obtain ⟨old, inside, made⟩ := mem_filterMap.mp member
    have before := json old (mem_of_mem_filter inside)
    exact isJson_liftParameterEntry before.1 before.2 made
  have schema : (map (inlineSchema parameter)).IsJson := isJson_map.mpr (json.filter _)
  simp only [liftParameter]
  split
  · exact isJson_map.mpr json
  · split
    · exact isJson_map.mpr kept.collect
    · exact isJson_map.mpr (kept.collect.set _ (keepsJson_liftSchema _ schema))

theorem isJson_describe {described : Entries} (json : described.IsJson) (own : entries.IsJson) :
    (describe described entries).IsJson := by
  rw [describe]
  split
  next description stored => exact own.set _ (json.present? stored)
  next => exact own

theorem grants_contentOf {schema mediaTypes : Value} (json : schema.IsJson)
    (listed : mediaTypes.IsJson) : Grants (contentOf schema mediaTypes) IsJson := by
  refine .bind (fun items read => listed.needItems read) fun items each => ?_
  refine .bind (.mapM fun item member key read => (each item member).needKey read)
    fun names keys => .ok (IsJson.collect fun entry member => ?_)
  obtain ⟨name, inside, rfl⟩ := mem_map.mp member
  exact ⟨keys name inside, by simpa using json⟩

theorem grants_liftBody {body : Entries} {consumes : Value} (json : body.IsJson)
    (listed : consumes.IsJson) : Grants (liftBody body consumes) IsJson := by
  have schema : (liftSchema ((body.get? "schema").getD (.map []))).IsJson :=
    keepsJson_liftSchema _ (json.getD (by simp) "schema")
  refine .bind (grants_contentOf schema listed) fun content held => .ok ?_
  exact isJson_map.mpr (isJson_describe json (by simpa using held))

theorem isJson_fieldSchema {field : Entries} (json : field.IsJson) : (fieldSchema field).IsJson :=
  isJson_describe json (json.filter _)

theorem grants_formFields {fields : List Entries} (each : ∀ field ∈ fields, IsJson field)
    {properties : Entries} {required : List Value} (json : properties.IsJson)
    (names : ∀ name ∈ required, name.IsJson) :
    Grants (formFields properties required fields) fun form =>
      form.1.IsJson ∧ ∀ name ∈ form.2, name.IsJson := by
  induction fields generalizing properties required with
  | nil => exact .ok ⟨json, names⟩
  | cons field rest ih =>
    obtain ⟨first, others⟩ := forall_mem_cons.mp each
    unfold formFields
    split
    · exact .error
    next name stored =>
      have named := first.get? stored
      refine .bind (fun _ read => named.needKey read) fun key held => ?_
      refine ih others (json.put held ?_) ?_
      · exact keepsJson_liftSchema _ (isJson_map.mpr (isJson_fieldSchema first))
      · split
        · exact forall_mem_append.mpr ⟨names, by simpa using named⟩
        · exact names

theorem grants_liftForm {fields : List Entries} (each : ∀ field ∈ fields, IsJson field)
    (consumes : Value) : Grants (liftForm fields consumes) IsJson := by
  refine .bind (grants_formFields each isJson_nil (by simp)) fun form held => ?_
  obtain ⟨properties, required⟩ := form
  let base : Entries := [(.str "type", .str "object"), (.str "properties", .map properties)]
  have json : base.IsJson := by simpa [base] using held.1
  have schema :
      IsJson (if required.isEmpty then base else base.set "required" (.list required)) := by
    split
    · exact json
    · exact json.set _ (isJson_list.mpr held.2)
  have whole (media : String) : (map [(.str "content", .map [(.str media,
      .map [(.str "schema", .map (if required.isEmpty then base
        else base.set "required" (.list required)))])]),
      (.str "required", .bool (!required.isEmpty))]).IsJson := by
    simpa using schema
  simp only
  split
  · exact .ok (whole _)
  · exact .bind (fun _ _ => trivial) fun multipart _ => .ok (whole _)

theorem grants_liftHeader {header : Value} (json : header.IsJson) :
    Grants (liftHeader header) IsJson := by
  refine .bind (grants_needEntries json) fun entries own => .ok ?_
  have schema := keepsJson_liftSchema _ (isJson_map.mpr (own.filter fun entry =>
    entry.1.isOneOf parameterSchemaKeys))
  exact isJson_map.mpr ((isJson_describe own isJson_nil).set _ schema)

theorem isJson_addExamples {examples content : Entries} (given : examples.IsJson)
    (json : content.IsJson) : (addExamples examples content).IsJson := by
  unfold addExamples
  induction examples generalizing content with
  | nil => exact json
  | cons sample rest ih =>
    obtain ⟨first, others⟩ := isJson_cons.mp given
    refine ih others (json.map fun entry key part => ?_)
    split
    · split
      next media same =>
        rw [same] at part
        exact ⟨key, isJson_map.mpr ((isJson_map.mp part).set _ first.2)⟩
      next => exact ⟨key, part⟩
    · exact ⟨key, part⟩

theorem grants_withHeaders {lifted : Entries} (own : entries.IsJson) (held : lifted.IsJson) :
    Grants (match entries.present? "headers" with
      | none => return .map lifted
      | some headers => do
        let headers ← (← headers.needEntries).mapM fun header => do
          return (header.1, ← liftHeader header.2)
        return .map (lifted.set "headers" (.map headers))
      : Except Fault Value) IsJson := by
  split
  · exact .ok (isJson_map.mpr held)
  next headers stored =>
    refine .bind (grants_needEntries (own.present? stored)) fun raw each => ?_
    refine .bind (grants_mapValues each fun _ => grants_liftHeader) fun made parts => ?_
    exact .ok (isJson_map.mpr (held.set _ (isJson_map.mpr parts)))

theorem grants_liftResponse {response produces : Value} (json : response.IsJson)
    (listed : produces.IsJson) : Grants (liftResponse response produces) IsJson := by
  refine .bind (fun _ _ => trivial) fun refers _ => ?_
  split
  · exact .ok json
  refine .bind (grants_needEntries json) fun entries own => ?_
  have described : IsJson
      [(.str "description", (entries.get? "description").getD (.str ""))] := by
    simpa using own.getD (by simp) "description"
  simp only
  split
  · exact grants_withHeaders own described
  next schema stored =>
    refine .bind (grants_contentOf (keepsJson_liftSchema _ (own.get? stored)) listed)
      fun content held => ?_
    refine .bind (grants_entriesUnder own "examples") fun examples given => ?_
    exact grants_withHeaders own (described.set _ (isJson_map.mpr (isJson_addExamples given held)))

theorem grants_liftSecurityScheme {scheme : Value} (json : scheme.IsJson) :
    Grants (liftSecurityScheme scheme) IsJson := by
  refine .bind (grants_needEntries json) fun entries own => ?_
  have ending {lifted : Entries} (held : lifted.IsJson) :
      Grants (return .map (describe entries lifted) : Except Fault Value) IsJson :=
    .ok (isJson_map.mpr (isJson_describe own held))
  simp only
  split
  · exact ending (by simp)
  · exact ending (by simpa using ⟨own.getD (by simp) "name", own.getD (by simp) "in"⟩)
  · have scopes : ((entries.present? "scopes").getD (.map [])).IsJson :=
      own.presentD (by simp) "scopes"
    have addresses : IsJson (["authorizationUrl", "tokenUrl"].filterMap fun key =>
        (entries.get? key).map fun address => (Scalar.str key, address)) := by
      intro entry member
      obtain ⟨key, -, made⟩ := mem_filterMap.mp member
      obtain ⟨address, stored, rfl⟩ := Option.map_eq_some_iff.mp made
      exact ⟨rfl, own.get? stored⟩
    refine .bind (fun _ _ => trivial) fun name _ => ending ?_
    simpa using ⟨scopes, addresses⟩
  · exact ending own

end Parameters

/-! ## Operations -/

section Operations

variable {document : Entries} (known : document.IsJson)

/-- The parts of sorted parameters are what JSON has. -/
structure Sorted.IsJson (sorted : Sorted) : Prop where
  parameters : ∀ parameter ∈ sorted.parameters, parameter.IsJson
  body : ∀ body ∈ sorted.body, Entries.IsJson body
  form : ∀ field ∈ sorted.form, Entries.IsJson field

include known

theorem Sorted.IsJson.grants_add {sorted : Sorted} (held : sorted.IsJson) {raw : Value}
    (json : raw.IsJson) : Grants (sorted.add raw document) Sorted.IsJson := by
  refine .bind (grants_parameterTarget json known) fun parameter own => ?_
  split
  · exact .ok { held with body := by simpa using own }
  · refine .ok { held with form := List.forall_mem_append.mpr ⟨?_, by simpa using own⟩ }
    exact fun field member => held.form field (List.mem_of_mem_filter member)
  · refine .bind (grants_needEntries json) fun entries inline => .ok
      { held with parameters := List.forall_mem_append.mpr ⟨held.parameters, ?_⟩ }
    simpa using isJson_liftParameter inline

theorem isJson_listed {operation : Entries} (json : operation.IsJson) (key : String) :
    (((operation.present? key).orElse fun _ => document.present? key).getD
      defaultMediaTypes).IsJson := by
  cases own : operation.present? key with
  | some value => exact json.present? own
  | none => exact known.presentD isJson_defaultMediaTypes key

theorem grants_liftOperation {operation : Entries} (json : operation.IsJson)
    {inherited : List Entries} (above : ∀ entries ∈ inherited, Entries.IsJson entries) :
    Grants (liftOperation operation document inherited) Value.IsJson := by
  have listed := isJson_listed known json
  refine .bind (grants_itemsUnder json "parameters") fun own each => ?_
  have raws : ∀ raw ∈ inherited.map Value.map ++ own, raw.IsJson := by
    refine List.forall_mem_append.mpr ⟨fun raw member => ?_, each⟩
    obtain ⟨entries, inside, rfl⟩ := List.mem_map.mp member
    exact Value.isJson_map.mpr (above entries inside)
  have none : ({} : Sorted).IsJson := ⟨by simp, by simp, by simp⟩
  refine .bind (.foldlM none fun sorted held raw member =>
    held.grants_add known (raws raw member)) fun sorted held => ?_
  let produces := ((operation.present? "produces").orElse fun _ =>
    document.present? "produces").getD defaultMediaTypes
  have ending {lifted : Entries} (made : lifted.IsJson) : Grants (do
      let responses ← Value.entriesOrNone (operation.present? "responses")
      let responses ← (responses.filter fun entry => entry.2.toEntries?.isSome).mapM fun entry => do
        return (Scalar.str entry.1.text, ← liftResponse entry.2 produces)
      return .map (lifted.set "responses" (.map (Entries.collect responses)))) Value.IsJson := by
    refine .bind (grants_entriesUnder json "responses") fun raw given => ?_
    refine .bind_mapM (fun entry => entry.1.isJson = true ∧ entry.2.IsJson)
      (fun entry member => ?_) fun responses parts => .ok ?_
    · have part := (given entry (List.mem_of_mem_filter member)).2
      exact .bind (grants_liftResponse part (listed "produces")) fun response answer =>
        .ok ⟨rfl, answer⟩
    · exact Value.isJson_map.mpr (made.set _ (Value.isJson_map.mpr (Entries.IsJson.collect parts)))
  let kept : Entries := operation.filter fun entry =>
    !entry.1.isOneOf ["parameters", "responses", "consumes", "produces", "schemes"]
  have lifted : Entries.IsJson (if sorted.parameters.isEmpty then kept
      else kept.set "parameters" (.list sorted.parameters)) := by
    split
    · exact json.filter _
    · exact (json.filter _).set _ (Value.isJson_list.mpr held.parameters)
  simp only
  split
  next body stored =>
    exact .bind (grants_liftBody (held.body body stored) (listed "consumes"))
      fun made part => ending (lifted.set _ part)
  next =>
    split
    · exact ending lifted
    · exact .bind (grants_liftForm held.form _) fun made part => ending (lifted.set _ part)

theorem grants_liftPathItem {item : Entries} (json : item.IsJson) :
    Grants (liftPathItem item document) Value.IsJson := by
  unfold liftPathItem
  split
  · exact .ok (Value.isJson_map.mpr json)
  refine .bind (grants_itemsUnder json "parameters") fun raws each => ?_
  refine .bind_mapM (Sum.elim Entries.IsJson Value.IsJson) (fun raw member => ?_)
    fun sorted parts => ?_
  · refine .bind (grants_parameterTarget (each raw member) known) fun parameter own => ?_
    simp only
    split
    · exact .ok own
    · exact .bind (grants_needEntries (each raw member)) fun entries inline =>
        .ok (isJson_liftParameter inline)
  have bodies : ∀ entries ∈ sorted.filterMap Sum.getLeft?, Entries.IsJson entries := by
    intro entries member
    obtain ⟨part, inside, left⟩ := List.mem_filterMap.mp member
    rw [Sum.getLeft?_eq_some_iff] at left
    simpa [left] using parts part inside
  have shared : ∀ parameter ∈ sorted.filterMap Sum.getRight?, parameter.IsJson := by
    intro parameter member
    obtain ⟨part, inside, right⟩ := List.mem_filterMap.mp member
    rw [Sum.getRight?_eq_some_iff] at right
    simpa [right] using parts part inside
  refine .bind_mapM (fun entry => entry.1.isJson = true ∧ entry.2.IsJson)
    (fun entry member => ?_) fun entries held => ?_
  · have before := json entry (List.mem_of_mem_filter member)
    split
    next key operation =>
      split
      · exact .bind (grants_liftOperation known (Value.isJson_map.mp before.2) bodies)
          fun made part => .ok ⟨before.1, part⟩
      · exact .ok before
    next => exact .ok before
  · split
    · exact .ok (Value.isJson_map.mpr held)
    · exact .ok (Value.isJson_map.mpr (Entries.isJson_cons.mpr
        ⟨⟨rfl, Value.isJson_list.mpr shared⟩, held⟩))

theorem grants_liftSection (name : String)
    (each : ∀ value : Value, value.IsJson → Grants (step value) IsJson) :
    Grants (liftSection name document step) IsJson :=
  .bind (grants_entriesUnder known name) fun _ json => grants_mapValues json each

theorem grants_liftSharedParameters : Grants (liftSharedParameters document) IsJson := by
  refine .bind (grants_entriesUnder known "parameters") fun parameters json => ?_
  refine .bind_mapM (fun part => ∀ entry ∈ part, entry.1.isJson = true ∧ entry.2.IsJson)
    (fun entry member => ?_) fun lifted parts => .ok fun entry member => ?_
  · have before := json entry member
    refine .bind (grants_needEntries before.2) fun parameter own => ?_
    simp only
    split
    · exact .ok (by simp)
    · exact .ok (by simpa using ⟨before.1, isJson_liftParameter own⟩)
  · obtain ⟨part, inside, same⟩ := mem_filterMap.mp member
    exact parts part inside entry same

theorem grants_liftComponents : Grants (liftComponents document) IsJson := by
  refine .bind (grants_liftSection known "definitions" fun schema json =>
    .ok (keepsJson_liftSchema schema json)) fun schemas first => ?_
  refine .bind (grants_liftSharedParameters known) fun parameters second => ?_
  have produces := known.presentD isJson_defaultMediaTypes "produces"
  refine .bind (grants_liftSection known "responses" fun response json =>
    grants_liftResponse json produces) fun responses third => ?_
  refine .bind (grants_liftSection known "securityDefinitions" fun scheme json =>
    grants_liftSecurityScheme json) fun schemes fourth => .ok fun entry member => ?_
  obtain ⟨part, inside, rfl⟩ := mem_map.mp member
  have listed := mem_of_mem_filter inside
  simp only [mem_cons, not_mem_nil, or_false] at listed
  refine ⟨rfl, isJson_map.mpr ?_⟩
  rcases listed with rfl | rfl | rfl | rfl
  · exact first
  · exact second
  · exact third
  · exact fourth

end Operations

/-! ## Documents -/

mutual

theorem isJson_moveReferences : (value : Value) → value.IsJson → (moveReferences value).IsJson
  | .map entries, json =>
    isJson_map.mpr (isJson_moveReferencesEntries entries (isJson_map.mp json))
  | .list items, json =>
    isJson_list.mpr (isJson_moveReferencesList items (isJson_list.mp json))
  | .scalar _, json => json

theorem isJson_moveReferencesList : (items : List Value) → (∀ item ∈ items, item.IsJson) →
    ∀ item ∈ moveReferencesList items, item.IsJson
  | [], json => json
  | item :: rest, json => by
      obtain ⟨first, others⟩ := forall_mem_cons.mp json
      exact forall_mem_cons.mpr
        ⟨isJson_moveReferences item first, isJson_moveReferencesList rest others⟩

theorem isJson_moveReferencesEntries :
    (entries : Entries) → entries.IsJson → IsJson (moveReferencesEntries entries)
  | [], json => json
  | (key, value) :: rest, json => by
      obtain ⟨first, others⟩ := isJson_cons.mp json
      have later := isJson_moveReferencesEntries rest others
      have moved := isJson_moveReferences value first.2
      rw [moveReferencesEntries.eq_def]
      split
      · exact isJson_nil
      next same =>
        cases same
        exact isJson_cons.mpr ⟨⟨first.1, by simp⟩, later⟩
      next same =>
        cases same
        exact isJson_cons.mpr ⟨⟨first.1, moved⟩, later⟩

end

theorem grants_lift {document : Value} (json : document.IsJson) :
    Grants (lift document) IsJson := by
  refine .bind (grants_needEntries json) fun entries own => ?_
  refine .bind (grants_liftServers entries) fun servers first => ?_
  refine .bind (grants_entriesUnder own "paths") fun paths second => ?_
  refine .bind_mapM (fun entry => entry.1.isJson = true ∧ entry.2.IsJson)
    (fun entry member => ?_) fun lifted parts => ?_
  · obtain ⟨old, inside, made⟩ := mem_filterMap.mp member
    obtain ⟨item, stored, rfl⟩ := Option.map_eq_some_iff.mp made
    have before := second old inside
    exact .bind (grants_liftPathItem own (before.2.toEntries? stored)) fun moved part =>
      .ok ⟨before.1, part⟩
  refine .bind (grants_liftComponents own) fun components held => .ok ?_
  apply isJson_moveReferences
  have version : IsJson [(.str "openapi", .str "3.0.3")] := by simp
  have kept := version.foldl_put (own.filter fun entry => !entry.1.isOneOf replacedKeys)
  have root := (kept.set "servers" first).set "paths" (isJson_map.mpr parts)
  split
  · exact isJson_map.mpr root
  · exact isJson_map.mpr (root.set _ (isJson_map.mpr held))

end Bindery.Dialect

namespace Bindery.NormalDocument

open Dialect

theorem grants_convert {document : Value} (json : document.IsJson) (dialect : Dialect) :
    Grants (convert document dialect) Value.IsJson := by
  cases dialect with
  | v20 => exact .bind (grants_lift json) fun lifted held _ made => isJson_upgrade held made
  | v30 => exact fun _ made => isJson_upgrade json made
  | v31 => exact .ok json
  | unknown => exact .ok json

/-- A document that JSON has is brought to the 3.1 shape without leaving JSON. -/
theorem isJson_ofDocument {document : Value} {location : String} {normal : NormalDocument}
    {told : List Diagnostic} (json : document.IsJson)
    (made : ofDocument document location = .ok (normal, told)) : normal.tree.IsJson := by
  obtain ⟨entries, -, made⟩ := ok_of_bind made
  obtain ⟨converted, shaped, made⟩ := ok_of_bind made
  obtain ⟨root, read, made⟩ := ok_of_bind made
  obtain ⟨_, -, made⟩ := ok_of_bind made
  cases made
  exact Value.isJson_map.mpr ((grants_convert json _ converted shaped).needEntries read)

end Bindery.NormalDocument

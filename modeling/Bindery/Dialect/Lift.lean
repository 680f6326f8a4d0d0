import Bindery.Dialect.Upgrade

/-!
# Documents from 2.0 to 3.0

The conversion builds servers, moves inline types into schemas, bodies and forms
into request bodies, and the sections of a document into its components.  At the
end every reference into a moved section is pointed at its new place.  A value of
an unexpected shape is a fault.
-/

namespace Bindery

namespace Dialect

def defaultMediaTypes : Value := .list [.str "application/json"]

def multipartForm : String := "multipart/form-data"

def encodedForm : String := "application/x-www-form-urlencoded"

def parameterSchemaKeys : List String :=
  ["type", "format", "items", "default", "enum", "minimum", "maximum", "exclusiveMinimum",
    "exclusiveMaximum", "minLength", "maxLength", "pattern", "minItems", "maxItems",
    "uniqueItems", "multipleOf", "x-nullable"]

def movedSections : List (String × String) :=
  [("#/definitions/", "#/components/schemas/"), ("#/parameters/", "#/components/parameters/"),
    ("#/responses/", "#/components/responses/")]

def moveReference (reference : String) : String :=
  match movedSections.findSome? fun moved =>
      (Text.after? moved.1 reference).map (moved.2 ++ ·) with
  | some moved => moved
  | none => reference

mutual

def moveReferences : Value → Value
  | .map entries => .map (moveReferencesEntries entries)
  | .list items => .list (moveReferencesList items)
  | .scalar value => .scalar value

def moveReferencesList : List Value → List Value
  | [] => []
  | item :: rest => moveReferences item :: moveReferencesList rest

def moveReferencesEntries : List (Scalar × Value) → List (Scalar × Value)
  | [] => []
  | (key, .scalar (.str text)) :: rest =>
    (key, .str (if key = .str "$ref" then moveReference text else text)) ::
      moveReferencesEntries rest
  | (key, value) :: rest => (key, moveReferences value) :: moveReferencesEntries rest

end

def liftServers (document : Entries) : Except Fault Value := do
  let basePath ← match document.present? "basePath" with
    | none => pure ""
    | some (.str path) => pure (String.ofList (Text.dropEndWhile (· == '/') path.toList))
    | some (.scalar (.bytes _)) => throw (.shape .wrongKind)
    | some _ => throw (.shape .noMember)
  match document.present? "host" with
  | none => return .list [.map [(.str "url", .str (if basePath = "" then "/" else basePath))]]
  | some host =>
    let schemes ← ((document.present? "schemes").getD (.list [.str "https"])).needItems
    return .list (schemes.map fun scheme =>
      .map [(.str "url", .str (scheme.text ++ "://" ++ host.text ++ basePath))])

def parameterTarget (raw : Value) (document : Entries) : Except Fault Entries := do
  let parameter ← raw.needEntries
  match parameter.get? "$ref" with
  | some (.str reference) =>
    match Text.after? "#/parameters/" reference with
    | some name =>
      let parameters ← Value.entriesOrNone (document.present? "parameters")
      match parameters.get? name with
      | some (.map target) => return target
      | _ => return parameter
    | none => return parameter
  | _ => return parameter

def liftParameterEntry (place : Option Value) (entry : Scalar × Value) : Option (Scalar × Value) :=
  if entry.1 = .str "collectionFormat" then
    if entry.2.isText "multi" then some (.str "explode", .bool true)
    else if entry.2.isText "csv" then some (.str "explode", .bool false)
    else none
  else if entry.1 = .str "allowEmptyValue" ∧ place ≠ some (.str "query") then none
  else some entry

def inlineSchema (parameter : Entries) : Entries :=
  parameter.filter fun entry => entry.1.isOneOf parameterSchemaKeys

def liftParameter (parameter : Entries) : Value :=
  if parameter.has "$ref" then .map parameter
  else
    let kept := (parameter.filter fun entry => !entry.1.isOneOf parameterSchemaKeys).filterMap
      (liftParameterEntry (parameter.get? "in"))
    let lifted := Entries.collect kept
    let schema := inlineSchema parameter
    if schema.isEmpty then .map lifted
    else .map (lifted.set "schema" (liftSchema (.map schema)))

def describe (described : Entries) (entries : Entries) : Entries :=
  match described.present? "description" with
  | some description => entries.set "description" description
  | none => entries

def contentOf (schema mediaTypes : Value) : Except Fault Entries := do
  let names ← (← mediaTypes.needItems).mapM Value.needKey
  return Entries.collect (names.map fun name => (name, .map [(.str "schema", schema)]))

def liftBody (body : Entries) (consumes : Value) : Except Fault Value := do
  let schema := liftSchema ((body.get? "schema").getD (.map []))
  let content ← contentOf schema consumes
  let required := ((body.get? "required").getD (.bool false)).isTruthy
  return .map (describe body
    [(.str "content", .map content), (.str "required", .bool required)])

def fieldSchema (field : Entries) : Entries :=
  describe field (inlineSchema field)

def formFields (properties : Entries) (required : List Value) :
    List Entries → Except Fault (Entries × List Value)
  | [] => .ok (properties, required)
  | field :: rest =>
    match field.get? "name" with
    | none => .error (.shape .noKey)
    | some name => do
      let key ← name.needKey
      let properties := properties.put key (liftSchema (.map (fieldSchema field)))
      let required := if (field.present? "required").isSome then required ++ [name] else required
      formFields properties required rest

def liftForm (fields : List Entries) (consumes : Value) : Except Fault Value := do
  let (properties, required) ← formFields [] [] fields
  let hasFile := fields.any fun field => (fieldSchema field).get? "type" == some (.str "file")
  let multipart ← if hasFile then pure true else consumes.holdsText multipartForm
  let base : Entries := [(.str "type", .str "object"), (.str "properties", .map properties)]
  let schema := if required.isEmpty then base else base.set "required" (.list required)
  let media := if multipart then multipartForm else encodedForm
  return .map [(.str "content", .map [(.str media, .map [(.str "schema", .map schema)])]),
    (.str "required", .bool (!required.isEmpty))]

def liftHeader (header : Value) : Except Fault Value := do
  let entries ← header.needEntries
  return .map ((describe entries []).set "schema" (liftSchema (.map (inlineSchema entries))))

def addExamples (examples content : Entries) : Entries :=
  examples.foldl (fun content sample =>
    content.map fun entry =>
      if entry.1.same sample.1 then
        match entry.2 with
        | .map media => (entry.1, .map (Entries.set "example" sample.2 media))
        | _ => entry
      else entry) content

def liftResponse (response produces : Value) : Except Fault Value := do
  if ← response.holdsText "$ref" then return response
  let entries ← response.needEntries
  let lifted : Entries := [(.str "description", (entries.get? "description").getD (.str ""))]
  let lifted ← match entries.get? "schema" with
    | none => pure lifted
    | some schema => do
      let content ← contentOf (liftSchema schema) produces
      let examples ← Value.entriesOrNone (entries.present? "examples")
      pure (lifted.set "content" (.map (addExamples examples content)))
  match entries.present? "headers" with
  | none => return .map lifted
  | some headers =>
    let headers ← (← headers.needEntries).mapM fun header => do
      return (header.1, ← liftHeader header.2)
    return .map (lifted.set "headers" (.map headers))

def flowName (flow : Value) : Except Fault String := do
  match ← flow.needKey with
  | .str "password" => return "password"
  | .str "application" => return "clientCredentials"
  | .str "accessCode" => return "authorizationCode"
  | _ => return "implicit"

def liftSecurityScheme (scheme : Value) : Except Fault Value := do
  let entries ← scheme.needEntries
  let lifted : Entries ← match entries.get? "type" with
    | some (.str "basic") => pure [(.str "type", .str "http"), (.str "scheme", .str "basic")]
    | some (.str "apiKey") => pure [(.str "type", .str "apiKey"),
        (.str "name", (entries.get? "name").getD .null),
        (.str "in", (entries.get? "in").getD .null)]
    | some (.str "oauth2") => do
      let scopes := (entries.present? "scopes").getD (.map [])
      let addresses := ["authorizationUrl", "tokenUrl"].filterMap fun key =>
        (entries.get? key).map fun address => (Scalar.str key, address)
      let name ← flowName ((entries.get? "flow").getD (.str ""))
      pure [(.str "type", .str "oauth2"),
        (.str "flows", .map [(.str name, .map ((.str "scopes", scopes) :: addresses))])]
    | _ => pure entries
  return .map (describe entries lifted)

structure Sorted where
  parameters : List Value := []
  body : Option Entries := none
  form : List Entries := []

/-- Adds a parameter to its group; a form field replaces an earlier one of its name. -/
def Sorted.add (sorted : Sorted) (raw : Value) (document : Entries) : Except Fault Sorted := do
  let parameter ← parameterTarget raw document
  match parameter.get? "in" with
  | some (.str "body") => return { sorted with body := some parameter }
  | some (.str "formData") =>
    let name := (parameter.get? "name").getD .null
    let others := sorted.form.filter fun other => !((other.get? "name").getD .null).same name
    return { sorted with form := others ++ [parameter] }
  | _ =>
    return { sorted with parameters := sorted.parameters ++ [liftParameter (← raw.needEntries)] }

def liftOperation (operation document : Entries) (inherited : List Entries) :
    Except Fault Value := do
  let listed (key : String) : Value :=
    ((operation.present? key).orElse fun _ => document.present? key).getD defaultMediaTypes
  let kept : Entries := operation.filter fun entry =>
    !entry.1.isOneOf ["parameters", "responses", "consumes", "produces", "schemes"]
  let own ← Value.itemsOrNone (operation.present? "parameters")
  let sorted ← (inherited.map Value.map ++ own).foldlM
    (fun (sorted : Sorted) raw => sorted.add raw document) {}
  let lifted : Entries :=
    if sorted.parameters.isEmpty then kept else kept.set "parameters" (.list sorted.parameters)
  let lifted : Entries ← match sorted.body with
    | some body => do pure (lifted.set "requestBody" (← liftBody body (listed "consumes")))
    | none =>
      if sorted.form.isEmpty then pure lifted
      else do pure (lifted.set "requestBody" (← liftForm sorted.form (listed "consumes")))
  let responses ← Value.entriesOrNone (operation.present? "responses")
  let responses ← (responses.filter fun entry => entry.2.toEntries?.isSome).mapM fun entry => do
    return (Scalar.str entry.1.text, ← liftResponse entry.2 (listed "produces"))
  return .map (lifted.set "responses" (.map (Entries.collect responses)))

def liftPathItem (item document : Entries) : Except Fault Value := do
  if item.has "$ref" then return .map item
  let raws ← Value.itemsOrNone (item.present? "parameters")
  let sorted ← raws.mapM fun raw => do
    let parameter ← parameterTarget raw document
    let place := (parameter.get? "in").getD .null
    if place.isOneOf ["body", "formData"] then return Sum.inl parameter
    else return Sum.inr (liftParameter (← raw.needEntries))
  let bodies := sorted.filterMap Sum.getLeft?
  let shared := sorted.filterMap Sum.getRight?
  let entries ← (item.filter fun entry => entry.1 ≠ .str "parameters").mapM fun entry => do
    match entry with
    | (key, .map operation) =>
      if key.isOneOf methodNames then return (key, ← liftOperation operation document bodies)
      else return entry
    | _ => return entry
  if shared.isEmpty then return .map entries
  else return .map ((.str "parameters", .list shared) :: entries)

/-- Applies a step to every value of the map under a key that counts as present. -/
def liftSection (name : String) (document : Entries) (step : Value → Except Fault Value) :
    Except Fault Entries := do
  (← Value.entriesOrNone (document.present? name)).mapM fun entry => do
    return (entry.1, ← step entry.2)

def liftSharedParameters (document : Entries) : Except Fault Entries := do
  let parameters ← Value.entriesOrNone (document.present? "parameters")
  let lifted ← parameters.mapM fun entry => do
    let parameter ← entry.2.needEntries
    let place := (parameter.get? "in").getD .null
    if place.isOneOf ["body", "formData"] then return none
    else return some (entry.1, liftParameter parameter)
  return lifted.filterMap id

def liftComponents (document : Entries) : Except Fault Entries := do
  let schemas ← liftSection "definitions" document (fun schema => return liftSchema schema)
  let parameters ← liftSharedParameters document
  let produces := (document.present? "produces").getD defaultMediaTypes
  let responses ← liftSection "responses" document (liftResponse · produces)
  let schemes ← liftSection "securityDefinitions" document liftSecurityScheme
  let sections := [("schemas", schemas), ("parameters", parameters), ("responses", responses),
    ("securitySchemes", schemes)]
  return (sections.filter fun entry => !entry.2.isEmpty).map fun entry =>
    (Scalar.str entry.1, Value.map entry.2)

def replacedKeys : List String :=
  ["swagger", "host", "basePath", "schemes", "consumes", "produces", "paths", "definitions",
    "parameters", "responses", "securityDefinitions"]

def lift (document : Value) : Except Fault Value := do
  let entries ← document.needEntries
  let kept := entries.filter fun entry => !entry.1.isOneOf replacedKeys
  let root : Entries := kept.foldl (fun (root : Entries) entry => root.put entry.1 entry.2)
    [(.str "openapi", .str "3.0.3")]
  let servers ← liftServers entries
  let paths ← Value.entriesOrNone (entries.present? "paths")
  let paths ← (paths.filterMap fun entry =>
    (entry.2.toEntries?).map fun item => (entry.1, item)).mapM fun entry => do
      return (entry.1, ← liftPathItem entry.2 entries)
  let root : Entries := (root.set "servers" servers).set "paths" (.map paths)
  let components ← liftComponents entries
  let root := if components.isEmpty then root else root.set "components" (.map components)
  return moveReferences (.map root)

end Dialect

end Bindery

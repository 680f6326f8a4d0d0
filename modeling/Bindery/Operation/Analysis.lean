import Bindery.Naming.Assignment
import Bindery.Operation.Response
import Bindery.Operation.Security
import Bindery.Record.Field
import Bindery.Resolution.Resolver

/-!
# Reading operations

The operations of a document, in the order of its paths and of the methods in each
path item.  One whose parts cannot be resolved is reported and left out.
-/

namespace Bindery

open Resolving Value

structure Analyzing where
  findings : Findings
  ids : List String := []

abbrev Analysis := Run Analyzing

namespace Analysis

def resolving {α : Type} (step : Resolving α) : Analysis α :=
  ExceptT.mk do
    let analyzing ← get
    let (result, findings) := step.start analyzing.findings
    set { analyzing with findings }
    return result

def report (diagnostic : Diagnostic) : Analysis Unit :=
  resolving (Resolving.report diagnostic)

abbrev Placed := Entries × String

/-- Follows the references of parameters; what is no object is left out. -/
def followAll (sources : Sources) (base : String) : List Value → Resolving (List Placed)
  | [] => return []
  | object :: rest => do
    let (target, location) ← follow sources object base
    let others ← followAll sources base rest
    match target with
    | .map entries => return (entries, location) :: others
    | _ => return others

def identity (parameter : Entries) : Except Fault (Scalar × Scalar) := do
  let part (name : String) : Except Fault Scalar :=
    ((parameter.get? name).getD (.str "")).needKey
  return (← part "name", ← part "in")

def sameIdentity (a b : Scalar × Scalar) : Bool :=
  a.1.same b.1 && a.2.same b.2

/-- The parameters of a path item that its operation does not replace, and then those of the
operation. -/
def merge (shared own : List Placed) : Except Fault (List Placed) := do
  let replaced ← own.mapM fun parameter => identity parameter.1
  let kept ← shared.filterM fun parameter => do
    let key ← identity parameter.1
    return !replaced.any (sameIdentity key)
  return kept ++ own

def ignoredHeaders : List String := ["accept", "content-type", "authorization"]

def isIgnoredHeader (name : Value) : Except Fault Bool :=
  match name with
  | .str text => .ok (ignoredHeaders.contains (Text.lower text))
  | .scalar (.bytes _) => .ok false
  | _ => .error (.shape .noMember)

def parameterSchema (parameter : Entries) : Value :=
  let inContent : Option Value := do
    let content ← (← parameter.get? "content").toEntries?
    content.findSome? fun media => media.2.get? "schema"
  let schema := match (parameter.get? "schema").filter (· ≠ .null) with
    | some schema => schema
    | none => inContent.getD .null
  if schema.isTruthy then schema else .map []

def isSet (entries : Entries) (name : String) : Bool :=
  (entries.present? name).isSome

def parameterOf (parameter : Entries) (place : ParameterPlace) (name : Value) (schema : Node) :
    Except Fault Parameter :=
  match Field.text name, Field.optional Field.text (parameter.get? "description") with
  | .ok name, .ok description =>
    .ok { name, place, description, schema
          required := place = .path || isSet parameter "required"
          deprecated := isSet parameter "deprecated" }
  | name, description =>
    .error (.invalid .parameter
      (Field.problem? "name" name ++ Field.problem? "description" description))

/-- Reads a parameter; one in an unknown place, or a header that is carried anyway, is left out. -/
def readParameter (sources : Sources) (parameter : Placed) (heading : String) :
    Resolving (Option Parameter) := do
  let (entries, base) := parameter
  let name := (entries.get? "name").getD (.str "")
  match ((entries.get? "in").getD (.str "query")).toText?.bind ParameterPlace.ofText? with
  | none => return none
  | some place =>
    if place = .header then
      if ← Run.ofExcept (isIgnoredHeader name) then return none
    let schema ← read sources (parameterSchema entries) base
      (heading ++ " parameter " ++ name.text)
    return some (← Run.ofExcept (parameterOf entries place name schema))

def readParameters (sources : Sources) (parameters : List Placed) (heading : String) :
    Resolving (List Parameter) := do
  return (← parameters.mapM fun parameter => readParameter sources parameter heading).filterMap id

def readContent (sources : Sources) (content : Option Value) (base place : String) :
    Resolving (List Media) :=
  (((content.bind toEntries?)).getD []).mapM fun entry => do
    let schema ← read sources ((entry.2.get? "schema").getD (.map [])) base
      (place ++ " " ++ entry.1.text)
    match entry.1 with
    | .str contentType => return { contentType, schema }
    | _ => throw (.invalid .media [{ field := "content_type", fault := .notText }])

def optionalText (record : RecordKind) (entries : Entries) (name : String) :
    Except Fault (Option String) :=
  match Field.optional Field.text (entries.get? name) with
  | .ok text => .ok text
  | .error fault => .error (.invalid record [{ field := name, fault }])

def readBody (sources : Sources) (raw : Value) (base heading : String) :
    Resolving (Option RequestBody) := do
  if raw = .null then return none
  match ← follow sources raw base with
  | (.map entries, location) =>
    let body : Entries := entries
    let content ← readContent sources (body.get? "content") location (heading ++ " request body")
    let description ← Run.ofExcept (optionalText .body body "description")
    return some { required := isSet body "required", description, content }
  | _ => return none

def readResponses (sources : Sources) (base heading : String) :
    Entries → Resolving (List Response)
  | [] => return []
  | (code, raw) :: rest => do
    match ← follow sources raw base with
    | (.map entries, location) =>
      let response : Entries := entries
      let status := code.text
      let content ← readContent sources (response.get? "content") location
        (heading ++ " response " ++ status)
      let description ← Run.ofExcept (optionalText .response response "description")
      return { status, description, content } :: (← readResponses sources base heading rest)
    | _ => readResponses sources base heading rest

/-- The id of an operation before it is made distinct: its own, or else one made of the method and
the segments of the path. -/
def idBase (operation : Entries) (method : String) (path : Scalar) : Except Fault String :=
  match (operation.get? "operationId").bind toText? with
  | some raw => if Text.isBlankText raw then ofPath else .ok (Naming.camelCase raw)
  | none => ofPath
where
  ofPath : Except Fault String :=
    match path with
    | .str path =>
      let segments := (Text.split '/' path).filter (· ≠ "")
      .ok (method ++ Text.join "" (segments.map fun segment => Naming.pascalCase segment "Root"))
    | .bytes _ => .error (.shape .wrongKind)
    | _ => .error (.shape .noMember)

def isAvailableId (earlier : List String) (id : String) : Bool :=
  !earlier.contains id && !(earlier.map Naming.snakeCase).contains (Naming.snakeCase id)

def distinctId (earlier : List String) (base : String) : String :=
  Naming.firstAvailable (isAvailableId earlier) base (2 * earlier.length)

def takeId (base : String) : Analysis String := do
  let analyzing ← get
  let id := distinctId analyzing.ids base
  set { analyzing with ids := analyzing.ids ++ [id] }
  return id

def operationParameters (sources : Sources) (item operation : Entries) (base heading : String) :
    Resolving (List Parameter × List Parameter) := do
  let listed (entries : Entries) : Resolving (List Placed) := do
    let items ← Run.ofExcept (itemsOrNone (entries.present? "parameters"))
    followAll sources base items
  let shared ← listed item
  let own ← listed operation
  let pathLevel ← readParameters sources shared heading
  let merged ← Run.ofExcept (merge shared own)
  return (pathLevel, ← readParameters sources merged heading)

def operationTexts (operation : Entries) (path : Scalar) :
    Except Fault (String × Option String × Option String) :=
  let summary := Field.optional Field.text (operation.get? "summary")
  let description := Field.optional Field.text (operation.get? "description")
  match Field.text (.scalar path), summary, description with
  | .ok path, .ok summary, .ok description => .ok (path, summary, description)
  | path, summary, description =>
    .error (.invalid .operation (Field.problem? "path_template" path ++
      Field.problem? "summary" summary ++ Field.problem? "description" description))

def operationSecurity (sources : Sources) (operation : Entries) : Except Fault Security := do
  let components ← sources.root.components.needEntries
  Security.resolve ((operation.get? "security").getD .null) sources.root.security
    ((components.present? "securitySchemes").getD (.map []))

def readOperation (sources : Sources) (path : Scalar) (method : Method)
    (item operation : Entries) (base : String) : Analysis Operation := do
  let heading := method.upper ++ " " ++ path.text
  let (pathLevel, merged) ←
    resolving (operationParameters sources item operation base heading)
  let responses ← resolving do
    let entries ← Run.ofExcept (entriesOrNone (operation.present? "responses"))
    readResponses sources base heading entries
  let security ← Run.ofExcept (operationSecurity sources operation)
  let id ← takeId (← Run.ofExcept (idBase operation method.text path))
  let tags ← Run.ofExcept (itemsOrNone (operation.present? "tags"))
  let body ← resolving
    (readBody sources ((operation.get? "requestBody").getD .null) base heading)
  let union ← Run.ofExcept (Response.union responses)
  let (path, summary, description) ← Run.ofExcept (operationTexts operation path)
  return {
    id, method, path, summary, description, pathLevel, body, responses, union, security
    deprecated := isSet operation "deprecated"
    tags := tags.map text
    parameters := .ofList merged }

def operationSkip (place : String) (cause : ResolutionFault) : Diagnostic where
  code := .resolutionSkip
  severity := .error
  message := "Skipping operation: " ++ cause.message
  location := some place

def readPathItem (sources : Sources) (path : Scalar) (item : Entries) (base : String) :
    Entries → Analysis (List Operation)
  | [] => return []
  | (.str key, .map operation) :: rest =>
    match Method.ofText? key with
    | none => readPathItem sources path item base rest
    | some method => do
      match ← Run.attempt (readOperation sources path method item operation base) with
      | .ok operation => return operation :: (← readPathItem sources path item base rest)
      | .error cause =>
        report (operationSkip (method.upper ++ " " ++ path.text) cause)
        readPathItem sources path item base rest
  | _ :: rest => readPathItem sources path item base rest

def readPaths (sources : Sources) : Entries → Analysis (List Operation)
  | [] => return []
  | (path, raw) :: rest => do
    match ← Run.attempt (resolving (follow sources raw)) with
    | .error cause =>
      report (operationSkip ("#/paths/" ++ path.text) cause)
      readPaths sources rest
    | .ok (.map item, base) =>
      let operations ← readPathItem sources path item base item
      return operations ++ (← readPaths sources rest)
    | .ok _ => readPaths sources rest

def operations (sources : Sources) : Resolving (List Operation) :=
  ExceptT.mk do
    let findings ← get
    let step : Analysis (List Operation) := do
      readPaths sources (← Run.ofExcept sources.root.paths.needEntries)
    let (result, analyzing) := step.start { findings }
    set analyzing.findings
    return result

end Analysis

namespace Operation

def dependencySkip (operation : Operation) (missing : String) : Diagnostic where
  code := .dependencySkip
  severity := .error
  message := "Skipping operation '" ++ operation.id ++ "': depends on skipped type '" ++
    missing ++ "'"
  location := some operation.heading

/-- Leaves out the operations that depend on skipped types, with a diagnostic for each. -/
def dropDependents (skipped : List String) :
    List Operation → List Operation × List Diagnostic
  | [] => ([], [])
  | operation :: rest =>
    let (kept, diagnostics) := dropDependents skipped rest
    match Registry.least? (operation.references.filter skipped.contains) with
    | some missing => (kept, operation.dependencySkip missing :: diagnostics)
    | none => (operation :: kept, diagnostics)

end Operation

end Bindery

import Bindery.Code.Compile
import Bindery.Naming.Assignment
import Bindery.Operation.Basic
import Bindery.Text.Case

/-!
# Binding operations

A binding holds everything that the unit of an operation needs.  Parameters arrive
as text, so their types convert, and header names are compared without case.
-/

namespace Bindery

open Code Naming

/-- A part of a request that is checked; the parts are checked in this order. -/
inductive Section where
  | query
  | path
  | headers
  | body
deriving DecidableEq, Repr

namespace Section

/-- All sections, in the order in which they are checked. -/
def all : List Section := [.query, .path, .headers, .body]

def text : Section → String
  | .query => "query"
  | .path => "path"
  | .headers => "headers"
  | .body => "body"

def errorType (part : Section) : String :=
  part.text ++ "_error"

def validator : Section → String
  | .query => "QueryParams"
  | .path => "PathParams"
  | .headers => "Headers"
  | .body => "check_body"

end Section

structure Variant where
  contentType : String
  fragment : TypeFragment

/-- A declared status; one without content has no variants. -/
structure ResponseSlot where
  status : String
  description : Option String
  variants : Option (List Variant)

structure Argument where
  name : String
  wireName : String
  place : ParameterPlace
  required : Bool
  type : TypeExpr
  description : Option String

structure Binding where
  operation : Operation
  module : String
  functionName : String
  queryModel : TypeFragment
  pathModel : TypeFragment
  headerModel : TypeFragment
  body : List Variant
  responses : List ResponseSlot
  stripHeaders : List String
  arguments : List Argument
  client : Bool
  server : Bool
  forceValidation : Bool

namespace Binding

def bodyRequired (binding : Binding) : Bool :=
  binding.operation.body.any (·.required)

def defaultContentType (binding : Binding) : Option String :=
  binding.operation.body.bind (·.defaultContentType)

def responseFragments (binding : Binding) : List TypeFragment :=
  binding.responses.flatMap fun slot => (slot.variants.getD []).map (·.fragment)

def fragments (binding : Binding) : List TypeFragment :=
  [binding.queryModel, binding.pathModel, binding.headerModel] ++
    binding.body.map (·.fragment) ++ binding.responseFragments

/-- All fragments together; the unit imports what this one imports. -/
def merged (binding : Binding) : Fragment Unit :=
  Fragment.combine () binding.fragments

structure Surface where
  client : Bool := true
  server : Bool := false
  forceValidation : Bool := false
deriving DecidableEq, Repr

/-- Puts a schema under a name: in place if the name is present, at the end if not. -/
def putSchema (name : String) (schema : Node) : List (String × Node) → List (String × Node)
  | [] => [(name, schema)]
  | (old, oldSchema) :: rest =>
    if old = name then (old, schema) :: rest else (old, oldSchema) :: putSchema name schema rest

def parameterNode (nameOf : Parameter → String) (declared : Bool) (parameters : List Parameter) :
    Node :=
  .object {} (parameters.foldl (fun properties parameter =>
      putSchema (nameOf parameter) parameter.schema properties) [])
    ((parameters.filter (·.required)).map nameOf) .open declared none

def bindContent (scope : Scope) (hint : String) (content : List Media) :
    Compilation (List Variant) :=
  content.mapM fun media => do
    return { contentType := media.contentType, fragment := ← compile scope false hint media.schema }

/-- Adds a member of the union of responses to the slot of its status. -/
def addToSlot (status : String) (variant : Option Variant) :
    List (String × Option (List Variant)) → List (String × Option (List Variant))
  | [] => [(status, variant.map fun variant => [variant])]
  | (other, variants) :: rest =>
    if other = status then
      match variants, variant with
      | some variants, some variant => (other, some (variants ++ [variant])) :: rest
      | variants, _ => (other, variants) :: rest
    else (other, variants) :: addToSlot status variant rest

def bindMembers (scope : Scope) (hint : String) (slots : List (String × Option (List Variant))) :
    List ResponseMember → Compilation (List (String × Option (List Variant)))
  | [] => return slots
  | member :: rest =>
    match member.media with
    | none => bindMembers scope hint (addToSlot member.status none slots) rest
    | some media => do
      let fragment ← compile scope false
        (hint ++ "Response" ++ pascalCase member.status "Status") media.schema
      bindMembers scope hint
        (addToSlot member.status (some { contentType := media.contentType, fragment }) slots) rest

def bindResponses (scope : Scope) (hint : String) (operation : Operation) :
    Compilation (List ResponseSlot) := do
  let slots ← bindMembers scope hint [] operation.union
  return slots.map fun (status, variants) =>
    let declared := operation.responses.reverse.find? (·.status == status)
    { status, description := declared.bind (·.description), variants }

def unitNames : List String :=
  ["config", "body", "content_type", "validate_request", "wrap", "route"]

def bindArguments (scope : Scope) (taken : List String) :
    List Parameter → Compilation (List Argument)
  | [] => return []
  | parameter :: rest => do
    let fragment ← compile scope true (pascalCase parameter.name "Param") parameter.schema
    let name := argumentName parameter.name taken
    let argument : Argument :=
      { name
        wireName := parameter.name
        place := parameter.place
        required := parameter.required
        type := if parameter.required then fragment.code else .optional fragment.code
        description := parameter.description }
    return argument :: (← bindArguments scope (name :: taken) rest)

def moduleName (id : String) : String :=
  let module := snakeCase id
  if isKeyword module then module ++ "_" else module

def isExplicitlyPublic (operation : Operation) : Bool :=
  operation.security.overridesGlobal && operation.security.alternatives.isEmpty

/-- Binds an operation; `authHeaders` are those that any scheme of the document uses. -/
def ofOperation (scope : Scope) (surface : Surface) (authHeaders : List String)
    (operation : Operation) : Compilation Binding := do
  let hint := pascalCase operation.id "Operation"
  let groups := operation.parameters
  let queryModel ← compile scope true (hint ++ "Query") (parameterNode (·.name) false groups.query)
  let pathModel ← compile scope true (hint ++ "Path") (parameterNode (·.name) false groups.path)
  let headerModel ← compile scope true (hint ++ "Headers")
    (parameterNode (fun parameter => Text.lower parameter.name) true groups.header)
  let body ← bindContent scope (hint ++ "Body") ((operation.body.map (·.content)).getD [])
  let functionName := argumentName operation.id unitNames
  let responses ← bindResponses scope hint operation
  let arguments ← bindArguments scope (functionName :: unitNames)
    (groups.path ++ groups.query ++ groups.header ++ groups.cookie)
  return {
    operation, functionName, queryModel, pathModel, headerModel, body, responses, arguments
    module := moduleName operation.id
    stripHeaders := if isExplicitlyPublic operation then authHeaders else []
    client := surface.client
    server := surface.server
    forceValidation := surface.forceValidation }

end Binding

end Bindery

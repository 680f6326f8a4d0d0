import Bindery.Schema.References

/-!
# Operations

An operation is one method on one path: its parameters by place, its request body
and responses by media type, and the security it needs.
-/

namespace Bindery

inductive Method where
  | get
  | put
  | post
  | delete
  | options
  | head
  | patch
  | trace
deriving DecidableEq, Repr

def Method.text : Method → String
  | .get => "get"
  | .put => "put"
  | .post => "post"
  | .delete => "delete"
  | .options => "options"
  | .head => "head"
  | .patch => "patch"
  | .trace => "trace"

def Method.upper (method : Method) : String :=
  String.ofList (method.text.toList.map Char.toUpper)

def Method.ofText? (text : String) : Option Method :=
  [Method.get, .put, .post, .delete, .options, .head, .patch, .trace].find? (·.text == text)

inductive ParameterPlace where
  | query
  | path
  | header
  | cookie
deriving DecidableEq, Repr

def ParameterPlace.text : ParameterPlace → String
  | .query => "query"
  | .path => "path"
  | .header => "header"
  | .cookie => "cookie"

def ParameterPlace.ofText? (text : String) : Option ParameterPlace :=
  [ParameterPlace.query, .path, .header, .cookie].find? (·.text == text)

structure Parameter where
  name : String
  place : ParameterPlace
  required : Bool
  description : Option String
  deprecated : Bool
  schema : Node
deriving DecidableEq

structure ParameterGroups where
  query : List Parameter := []
  path : List Parameter := []
  header : List Parameter := []
  cookie : List Parameter := []
deriving DecidableEq

def ParameterGroups.ofList (parameters : List Parameter) : ParameterGroups where
  query := parameters.filter (·.place = .query)
  path := parameters.filter (·.place = .path)
  header := parameters.filter (·.place = .header)
  cookie := parameters.filter (·.place = .cookie)

def ParameterGroups.all (groups : ParameterGroups) : List Parameter :=
  groups.query ++ groups.path ++ groups.header ++ groups.cookie

structure Media where
  contentType : String
  schema : Node
deriving DecidableEq

structure RequestBody where
  required : Bool
  description : Option String
  content : List Media
deriving DecidableEq

def RequestBody.defaultContentType (body : RequestBody) : Option String :=
  body.content.head?.map (·.contentType)

structure Response where
  status : String
  description : Option String
  content : List Media
deriving DecidableEq

/-- One member of the union of responses: a status with one media type, or without content. -/
structure ResponseMember where
  status : String
  media : Option Media
deriving DecidableEq

def ResponseMember.isVoid (member : ResponseMember) : Bool :=
  member.media.isNone

/-- A header that carries credentials, and the schemes that use it. -/
structure SecurityHeader where
  name : String
  required : Bool
  schemes : List String
deriving DecidableEq, Repr

/-- The security of an operation: one of the alternatives has to be satisfied, with all of its
schemes. -/
structure Security where
  alternatives : List (List String)
  headers : List SecurityHeader
  overridesGlobal : Bool
deriving DecidableEq, Repr

def Security.requiresAuth (security : Security) : Bool :=
  !security.alternatives.isEmpty && security.alternatives.all fun schemes => !schemes.isEmpty

structure Operation where
  id : String
  method : Method
  path : String
  summary : Option String
  description : Option String
  deprecated : Bool
  tags : List String
  pathLevel : List Parameter
  parameters : ParameterGroups
  body : Option RequestBody
  responses : List Response
  union : List ResponseMember
  security : Security
deriving DecidableEq

def Parameter.rename (names : List (String × String)) (parameter : Parameter) : Parameter :=
  { parameter with schema := parameter.schema.rename names }

def Media.rename (names : List (String × String)) (media : Media) : Media :=
  { media with schema := media.schema.rename names }

def ParameterGroups.rename (names : List (String × String)) (groups : ParameterGroups) :
    ParameterGroups where
  query := groups.query.map (Parameter.rename names)
  path := groups.path.map (Parameter.rename names)
  header := groups.header.map (Parameter.rename names)
  cookie := groups.cookie.map (Parameter.rename names)

namespace Operation

def heading (operation : Operation) : String :=
  operation.method.upper ++ " " ++ operation.path

def schemas (operation : Operation) : List Node :=
  operation.parameters.all.map (·.schema) ++
    ((operation.body.map (·.content)).getD []).map (·.schema) ++
    operation.responses.flatMap fun response => response.content.map (·.schema)

def references (operation : Operation) : List String :=
  (operation.schemas.flatMap Node.targets).eraseDups

def rename (names : List (String × String)) (operation : Operation) : Operation :=
  { operation with
    pathLevel := operation.pathLevel.map (Parameter.rename names)
    parameters := operation.parameters.rename names
    body := operation.body.map fun body =>
      { body with content := body.content.map (Media.rename names) }
    responses := operation.responses.map fun response =>
      { response with content := response.content.map (Media.rename names) }
    union := operation.union.map fun member =>
      { member with media := member.media.map (Media.rename names) } }

end Operation

end Bindery

import Bindery.Operation.Binding
import Bindery.Package.TypeUnit

/-!
# The unit of an operation

The unit of an operation holds its models and tables, the client function if the
client is emitted, and the checks of requests if the server is emitted.
-/

namespace Bindery.Package

open Text Code

def truth (value : Bool) : String :=
  if value then "True" else "False"

def sectionCheck : Section → String
  | .query => "check(QueryParams, dict(request.query))"
  | .path => "check(PathParams, dict(request.path))"
  | .headers =>
    r"check(Headers, {str(k).lower(): v for k, v in request.headers.items()})"
  | .body =>
    "check_body(REQUEST_BODY, request.body, request.content_type, required=BODY_REQUIRED)"

def clientSupport : List String := ["ApiResponse", "ClientConfig", "send"]

def serverSupport : List String :=
  ["RawRequest", "Route", "ValidatedRequest", "ValidationFailure", "ValidationOk", "check_body"]

def onlyIf {α : Type} (condition : Bool) (items : List α) : List α :=
  if condition then items else []

def operationRuntime (binding : Binding) : List String :=
  let codes := binding.fragments.map (·.code.text) ++ binding.arguments.map (·.type.text)
  sortNames (runtimeMentions codes ++ ["Any"] ++ onlyIf binding.client ["Optional"] ++
    onlyIf binding.server ["check", "CheckError"])

def operationSupport (binding : Binding) : List String :=
  sortNames (onlyIf binding.client clientSupport ++ onlyIf binding.server serverSupport)

def operationImports (modules : Modules) (binding : Binding) : List String :=
  ["", "from __future__ import annotations", ""] ++
    onlyIf binding.server ["import functools", "from typing import Callable, Union"] ++
    ["", "from .._runtime import " ++ join ", " (operationRuntime binding),
      "from .._support import " ++ join ", " (operationSupport binding)] ++
    (schemaImports modules binding.merged.imports).map fun (module, name) =>
      "from ..schemas." ++ module ++ " import " ++ name

def variantLine (indent : String) (variant : Variant) : String :=
  indent ++ quoted variant.contentType ++ ": " ++ variant.fragment.code.text ++ ","

def slotLines (slot : ResponseSlot) : List String :=
  match slot.variants with
  | none => ["    " ++ quoted slot.status ++ ": None,"]
  | some variants =>
    ["    " ++ quoted slot.status ++ ": \x7b"] ++ variants.map (variantLine "        ") ++
      ["    \x7d,"]

def operationTables (binding : Binding) : List String :=
  let operation := binding.operation
  ["", "OPERATION_ID = " ++ quoted operation.id, "METHOD = " ++ quoted operation.method.text,
    "PATH = " ++ quoted operation.path, "",
    "QueryParams = " ++ binding.queryModel.code.text,
    "PathParams = " ++ binding.pathModel.code.text,
    "Headers = " ++ binding.headerModel.code.text, "", "REQUEST_BODY = \x7b"] ++
    binding.body.map (variantLine "    ") ++
    ["\x7d", "BODY_REQUIRED = " ++ truth binding.bodyRequired, "", "RESPONSES = \x7b"] ++
    binding.responses.flatMap slotLines ++
    ["\x7d", "", "SECURITY_HEADERS = " ++ textTuple (operation.security.headers.map (·.name))]

def signatureLines (binding : Binding) : List String :=
  let hasBody := !binding.body.isEmpty
  let required := binding.arguments.filter (·.required)
  let others := binding.arguments.filter fun argument => !argument.required
  ["    config: ClientConfig,"] ++
    onlyIf (!binding.arguments.isEmpty || hasBody) ["    *,"] ++
    required.map (fun argument => "    " ++ argument.name ++ ": " ++ argument.type.text ++ ",") ++
    onlyIf (hasBody && binding.bodyRequired) ["    body: Any,"] ++
    others.map (fun argument =>
      "    " ++ argument.name ++ ": " ++ argument.type.text ++ " = None,") ++
    onlyIf (hasBody && !binding.bodyRequired) ["    body: Any = None,"] ++
    onlyIf hasBody ["    content_type: str = " ++
      ((binding.defaultContentType.map quoted).getD "None") ++ ","]

def describedArguments (binding : Binding) : List (String × String) :=
  binding.arguments.filterMap fun argument =>
    match argument.description with
    | none => none
    | some text => if text = "" then none else some (argument.name, docLine text)

def clientTitle (operation : Operation) : String :=
  let heading := operation.method.upper ++ " " ++ docLine operation.path
  match operation.summary with
  | some summary => if summary = "" then heading else docLine summary
  | none => heading

def clientDoc (binding : Binding) : String :=
  let title := clientTitle binding.operation
  let described := describedArguments binding
  if described.isEmpty then "    " ++ tripleQuote ++ title ++ tripleQuote
  else docBlock "    " ([title, "", "    Args:"] ++
    described.map fun (name, text) => "        " ++ name ++ ": " ++ text)

def placeKeyword : ParameterPlace → String
  | .path => "path_params"
  | .query => "query"
  | .header => "headers"
  | .cookie => "cookies"

def sentArguments (binding : Binding) (place : ParameterPlace) : List String :=
  let arguments := binding.arguments.filter (·.place = place)
  onlyIf (!arguments.isEmpty)
    (["        " ++ placeKeyword place ++ "=\x7b"] ++
      arguments.map (fun argument =>
        "            " ++ quoted argument.wireName ++ ": " ++ argument.name ++ ",") ++
      ["        \x7d,"])

def clientLines (binding : Binding) : List String :=
  ["", "", "def " ++ binding.functionName ++ "("] ++ signatureLines binding ++
    [") -> ApiResponse:", clientDoc binding, "    return send(", "        config,",
      "        METHOD,", "        PATH,", "        responses=RESPONSES,"] ++
    [ParameterPlace.path, .query, .header, .cookie].flatMap (sentArguments binding) ++
    onlyIf (!binding.body.isEmpty) ["        body=body,", "        content_type=content_type,"] ++
    onlyIf (!binding.stripHeaders.isEmpty)
      ["        strip_headers=" ++ textList binding.stripHeaders ++ ","] ++
    onlyIf binding.forceValidation ["        force_validation=True,"] ++ ["    )"]

def sectionLines (part : Section) : List String :=
  ["    try:", "        " ++ part.text ++ " = " ++ sectionCheck part,
    "    except CheckError as exc:",
    "        return ValidationFailure(" ++ quoted part.errorType ++ ", exc.errors)"]

def serverLines : List String :=
  ["", "",
    "def validate_request(request: RawRequest) -> Union[ValidationOk, ValidationFailure]:",
    r#"    """Check query, path, headers and body in that order; stop at the first failure.""""#] ++
    Section.all.flatMap sectionLines ++
    ["    return ValidationOk(",
      "        ValidatedRequest(",
      "            query=query,",
      "            path=path,",
      "            headers=headers,",
      "            body=body,",
      "            content_type=request.content_type,",
      "        )",
      "    )",
      "",
      "",
      "def wrap(handler: Callable[[ValidatedRequest], Any]) -> Callable[[RawRequest], Any]:",
      r#"    """Validate each request before *handler* sees it."#,
      "",
      "    A failed validation is returned to the caller instead of reaching the",
      "    handler.",
      r#"    """"#,
      "",
      "    @functools.wraps(handler)",
      "    def wrapper(request: RawRequest) -> Any:",
      "        outcome = validate_request(request)",
      "        if isinstance(outcome, ValidationFailure):",
      "            return outcome",
      "        return handler(outcome.value)",
      "",
      "    return wrapper",
      "",
      "",
      "def route(handler: Callable[[ValidatedRequest], Any]) -> Route:",
      "    return Route(OPERATION_ID, METHOD, PATH, wrap(handler))"]

def operationDoc (operation : Operation) : String :=
  docstring (titled (operation.method.upper ++ " " ++ docLine operation.path) operation.summary)
    (onlyIf operation.deprecated ["Deprecated.", ""] ++ [generatedBy ++ ". Do not edit."])

def operationUnit (modules : Modules) (binding : Binding) : SourceUnit :=
  .ofLines ("operations/" ++ binding.module ++ ".py") (operationDoc binding.operation)
    (operationImports modules binding ++ operationTables binding ++
      onlyIf binding.client (clientLines binding) ++ onlyIf binding.server serverLines)

end Bindery.Package

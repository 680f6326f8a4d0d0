import Bindery.Package.OperationUnit

/-!
# The index units

The units that make a package and its two parts importable: they collect the
named types, the operations, and what the package offers.
-/

namespace Bindery.Package

open Text

def schemasDoc (title : String) : String :=
  docstring ("Named types of the " ++ docLine title ++ " API, in dependency order.")
    [generatedBy ++ ". Do not edit."]

def schemaIndex (title : String) (types : List NamedType) : SourceUnit :=
  .ofLines "schemas/__init__.py" (schemasDoc title)
    (onlyIf (!types.isEmpty)
        ("" :: types.map fun type => "from ." ++ type.module ++ " import " ++ type.name) ++
      ["", "__all__ = ["] ++ types.map (fun type => "    " ++ quoted type.name ++ ",") ++ ["]"])

/-- What the docstring of the operations says about their modules. -/
def surfaceText (client server : Bool) : String :=
  "``RESPONSES``" ++ (if client then ", a client function" else "") ++
    (if server then " and ``validate_request``, ``wrap`` and ``route``" else "") ++ "."

def operationsDoc (title : String) (bindings : List Binding) (server : Bool) : String :=
  docstring ("Operations of the " ++ docLine title ++ " API, in document order.")
    ["Each module exposes the operation's parameter models, ``REQUEST_BODY`` and",
      surfaceText (bindings.any (·.client)) server, "", generatedBy ++ ". Do not edit."]

def operationIndex (title : String) (bindings : List Binding) (server : Bool) : SourceUnit :=
  .ofLines "operations/__init__.py" (operationsDoc title bindings server)
    (onlyIf (!bindings.isEmpty)
        (["", "from . import ("] ++ bindings.map (fun binding => "    " ++ binding.module ++ ",") ++
          [")"]) ++
      ["", "OPERATIONS = \x7b"] ++
      bindings.map (fun binding =>
        "    " ++ quoted binding.operation.id ++ ": " ++ binding.module ++ ",") ++
      ["\x7d"])

def routesLines : List String :=
  ["",
    "",
    "def routes(handlers):",
    r#"    """Build a :class:`Route` for every operation id in *handlers*."#,
    "",
    "    Raises:",
    "        KeyError: A handler names an operation the API does not define.",
    r#"    """"#,
    "    return [OPERATIONS[operation_id].route(handler) for operation_id, handler in handlers.items()]"]

def packageDoc (title version source : String) : String :=
  docstring ("Typed bindings for " ++ docLine title ++ version ++ ".")
    [generatedBy ++ " from " ++ docLine source ++ ". Do not edit;", "regenerate instead."]

def packageIndex (title version source : String) (server : Bool) : SourceUnit :=
  .ofLines "__init__.py" (packageDoc title version source)
    (["",
        "from . import operations, schemas",
        "from ._runtime import CheckError, check",
        "from ._support import (",
        "    SERVERS,",
        "    ApiResponse,",
        "    ClientConfig,",
        "    RawRequest,",
        "    Route,",
        "    UnexpectedResponseError,",
        "    ValidatedRequest,",
        "    ValidationFailure,",
        "    ValidationOk,",
        ")",
        "",
        "OPERATIONS = operations.OPERATIONS"] ++
      onlyIf server routesLines ++
      ["",
        "__all__ = [",
        r#"    "SERVERS","#,
        r#"    "OPERATIONS","#,
        r#"    "ApiResponse","#,
        r#"    "CheckError","#,
        r#"    "ClientConfig","#,
        r#"    "RawRequest","#,
        r#"    "Route","#,
        r#"    "UnexpectedResponseError","#,
        r#"    "ValidatedRequest","#,
        r#"    "ValidationFailure","#,
        r#"    "ValidationOk","#,
        r#"    "check","#,
        r#"    "operations","#] ++
      onlyIf server [r#"    "routes","#] ++
      [r#"    "schemas","#, "]"])

end Bindery.Package

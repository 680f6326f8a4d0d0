import Bindery.Console.Basic
import Bindery.Survey

/-!
# Inspections

An inspection shows what a survey found, the named types and the operations,
without generating anything.  It is written as two tables or as one value.
-/

namespace Bindery

namespace Survey

def typeTable (survey : Survey) : Except Fault Console.Table := do
  let title ← survey.document.title
  return {
    headings := ["Type", "Module", "Kind", "Location"]
    rows := survey.types.map fun type =>
      [type.name, type.module, type.node.kindWord, type.location]
    title := some (title ++ " (" ++ survey.document.dialect.text ++ ")") }

def operationTable (survey : Survey) : Console.Table where
  headings := ["Operation", "Method", "Path", "Responses"]
  rows := survey.operations.map fun operation =>
    [operation.id, Text.upperAscii operation.method.text, operation.path,
      Text.join ", " (operation.responses.map (·.status))]

def record (entries : List (String × Value)) : Value :=
  .map (entries.map fun entry => (.str entry.1, entry.2))

def typeValue (type : NamedType) : Value :=
  record [("name", .str type.name), ("module", .str type.module),
    ("kind", .str type.node.kindWord), ("location", .str type.location)]

def operationValue (operation : Operation) : Value :=
  record [("id", .str operation.id), ("method", .str operation.method.text),
    ("path", .str operation.path),
    ("responses", .list (operation.responses.map fun response => .str response.status))]

def diagnosticValue (diagnostic : Diagnostic) : Value :=
  record [("code", .str diagnostic.code.text), ("severity", .str diagnostic.severity.text),
    ("message", .str diagnostic.message),
    ("location", (diagnostic.location.map Value.str).getD .null)]

def inspection (survey : Survey) (diagnostics : List Diagnostic) : Except Fault Value := do
  let title ← survey.document.title
  return record [("title", .str title),
    ("dialect", .str survey.document.dialect.text),
    ("types", .list (survey.types.map typeValue)),
    ("operations", .list (survey.operations.map operationValue)),
    ("diagnostics", .list (diagnostics.map diagnosticValue))]

end Survey

end Bindery

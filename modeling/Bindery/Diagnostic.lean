/-!
# Diagnostics

A condition met during a run that does not stop it: what kind of condition, how
serious, in which words, and where in the input.  Diagnostics are collected in
the order in which they are met.
-/

namespace Bindery

inductive Severity where
  | info
  | warning
  | error
deriving DecidableEq, Repr

def Severity.text : Severity → String
  | .info => "info"
  | .warning => "warning"
  | .error => "error"

def Severity.ofText? (text : String) : Option Severity :=
  [Severity.info, .warning, .error].find? (·.text == text)

inductive DiagnosticCode where
  | unknownDialect
  | resolutionSkip
  | dependencySkip
  | compilationAmbiguity
  | identifierCollision
  | unsupportedKeyword
deriving DecidableEq, Repr

def DiagnosticCode.text : DiagnosticCode → String
  | .unknownDialect => "unknown-dialect"
  | .resolutionSkip => "resolution-skip"
  | .dependencySkip => "dependency-skip"
  | .compilationAmbiguity => "compilation-ambiguity"
  | .identifierCollision => "identifier-collision"
  | .unsupportedKeyword => "unsupported-keyword"

def DiagnosticCode.ofText? (text : String) : Option DiagnosticCode :=
  [DiagnosticCode.unknownDialect, .resolutionSkip, .dependencySkip, .compilationAmbiguity,
    .identifierCollision, .unsupportedKeyword].find? (·.text == text)

structure Diagnostic where
  code : DiagnosticCode
  severity : Severity := .warning
  message : String
  location : Option String := none
deriving DecidableEq, Repr

namespace Diagnostic

def render (diagnostic : Diagnostic) : String :=
  let place := match diagnostic.location with
    | none => ""
    | some location => if location.isEmpty then "" else " (at " ++ location ++ ")"
  "[" ++ diagnostic.code.text ++ "] " ++ diagnostic.message ++ place

def ofCode (code : DiagnosticCode) (diagnostics : List Diagnostic) : List Diagnostic :=
  diagnostics.filter (·.code = code)

def hasErrors (diagnostics : List Diagnostic) : Bool :=
  diagnostics.any (·.severity = .error)

end Diagnostic

end Bindery

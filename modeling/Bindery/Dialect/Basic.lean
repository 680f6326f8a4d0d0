import Bindery.Value.Shape

/-!
# Dialects of API descriptions

A document declares the dialect it is written in by the text of a version key.
Three dialects are known; every other version is passed through as it is.
-/

namespace Bindery

inductive Dialect where
  | v20
  | v30
  | v31
  | unknown
deriving DecidableEq, Repr

namespace Dialect

def text : Dialect → String
  | .v20 => "2.0"
  | .v30 => "3.0"
  | .v31 => "3.1"
  | .unknown => "unknown"

def ofText? (text : String) : Option Dialect :=
  [Dialect.v20, .v30, .v31, .unknown].find? (·.text == text)

def ofEntries (entries : Entries) : Dialect :=
  match (entries.get? "swagger").filter (· ≠ .null) with
  | some version => if Text.beginsWith version.text "2.0" then .v20 else .unknown
  | none =>
    let version := ((entries.get? "openapi").map Value.text).getD ""
    if Text.beginsWith version "3.0" then .v30
    else if Text.beginsWith version "3.1" then .v31
    else .unknown

def ofDocument (document : Value) : Except Fault Dialect := do
  return ofEntries (← document.needEntries)

end Dialect

end Bindery

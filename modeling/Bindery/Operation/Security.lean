import Bindery.Operation.Basic
import Bindery.Text.Case
import Bindery.Value.Shape

/-!
# Security requirements

The requirements of an operation, if it has any, replace those of the document, and
each is one alternative.  A header is required if every alternative needs it.
-/

namespace Bindery.Security

def schemeHeader (scheme : Entries) : Option String :=
  match scheme.get? "type" with
  | some (.str "apiKey") =>
    match scheme.get? "in", scheme.get? "name" with
    | some (.str "header"), some (.str name) => some name
    | _, _ => none
  | some kind =>
    if kind.isOneOf ["http", "oauth2", "openIdConnect"] then some "Authorization" else none
  | none => none

def headerOf (scheme : Option Value) : Option String :=
  (scheme.bind Value.toEntries?).bind schemeHeader

/-- A header that was found: its name without case, its first spelling, and its schemes. -/
structure Found where
  key : String
  spelling : String
  schemes : List String

def addFound (key spelling scheme : String) : List Found → List Found
  | [] => [{ key, spelling, schemes := [scheme] }]
  | found :: rest =>
    if found.key = key then
      let schemes :=
        if found.schemes.contains scheme then found.schemes else found.schemes ++ [scheme]
      { found with schemes } :: rest
    else found :: addFound key spelling scheme rest

/-- The headers of the schemes of all alternatives, in the order of first mention. -/
def findHeaders (headerFor : String → Option String) (schemes : List String) : List Found :=
  schemes.foldl (fun found scheme =>
    match headerFor scheme with
    | none => found
    | some header => addFound (Text.lower header) header scheme found) []

def alternativesOf (requirements : Value) : Except Fault (List (List String)) := do
  let items ← if requirements.isTruthy then requirements.needItems else pure []
  return (items.filterMap Value.toEntries?).map fun entries =>
    entries.map fun entry => entry.1.text

def resolve (own shared schemes : Value) : Except Fault Security := do
  let overrides := own ≠ .null
  let alternatives ← alternativesOf (if overrides then own else shared)
  let names := alternatives.flatten
  let entries ← if names.isEmpty then pure [] else schemes.needEntries
  let headerFor (name : String) : Option String := headerOf (Entries.get? name entries)
  let needs (key : String) (alternative : List String) : Bool :=
    alternative.any fun name => (headerFor name).map Text.lower == some key
  return {
    alternatives
    headers := (findHeaders headerFor names).map fun found =>
      { name := found.spelling
        required := alternatives.all (needs found.key)
        schemes := found.schemes }
    overridesGlobal := overrides }

/-- The headers that any of a document's schemes uses; the first spelling of each. -/
def documentHeaders (schemes : Value) : Except Fault (List String) := do
  let entries ← schemes.needEntries
  return (entries.filterMap fun entry => headerOf (some entry.2)).foldl (fun found header =>
    if found.any fun other => Text.lower other == Text.lower header then found
    else found ++ [header]) []

end Bindery.Security

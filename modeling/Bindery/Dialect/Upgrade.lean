import Bindery.Dialect.Schema

/-!
# Documents from 3.0 to 3.1

A 3.0 document has the shape of a 3.1 document apart from its schemas, so the
conversion visits every place that holds a schema.
-/

namespace Bindery

namespace Dialect

def methodNames : List String :=
  ["get", "put", "post", "delete", "options", "head", "patch", "trace"]

/-- Applies a function to the value under a key that is present. -/
def atKey (name : String) (change : Value → Value) (entries : Entries) : Entries :=
  match entries.get? name with
  | some value => entries.set name (change value)
  | none => entries

def onValues (change : Value → Value) : Value → Value
  | .map entries => .map (entries.map fun entry => (entry.1, change entry.2))
  | value => value

def onItems (change : Value → Value) : Value → Value
  | .list items => .list (items.map change)
  | value => value

/-- Applies a function to the entries of a map that is no reference. -/
def unlessReference (change : Entries → Entries) : Value → Value
  | .map entries => if Entries.has "$ref" entries then .map entries else .map (change entries)
  | value => value

def upgradeMedia : Value → Value
  | .map entries => .map (atKey "schema" upgradeSchema entries)
  | value => value

def upgradeContent (content : Value) : Value :=
  onValues upgradeMedia content

def upgradeParameter (parameter : Value) : Value :=
  unlessReference (fun entries =>
    atKey "content" upgradeContent (atKey "schema" upgradeSchema entries)) parameter

def upgradeBody (body : Value) : Value :=
  unlessReference (atKey "content" upgradeContent) body

def upgradeResponse (response : Value) : Value :=
  unlessReference (fun entries =>
    atKey "headers" (onValues upgradeParameter) (atKey "content" upgradeContent entries)) response

def upgradeOperation (entries : Entries) : Entries :=
  atKey "responses" (onValues upgradeResponse)
    (atKey "requestBody" upgradeBody (atKey "parameters" (onItems upgradeParameter) entries))

def upgradePathEntry (entry : Scalar × Value) : Scalar × Value :=
  match entry with
  | (key, .map entries) =>
    if key.isOneOf methodNames then (key, .map (upgradeOperation entries)) else entry
  | (key, .list items) =>
    if key = .str "parameters" then (key, .list (items.map upgradeParameter)) else entry
  | _ => entry

def upgradePathItem (item : Value) : Value :=
  unlessReference (fun entries => entries.map upgradePathEntry) item

def upgradeComponents : Value → Value
  | .map entries =>
    .map (atKey "responses" (onValues upgradeResponse)
      (atKey "requestBodies" (onValues upgradeBody)
        (atKey "headers" (onValues upgradeParameter)
          (atKey "parameters" (onValues upgradeParameter)
            (atKey "schemas" (onValues upgradeSchema) entries)))))
  | value => value

def upgradedVersion : String := "3.1.0"

def upgradeEntries (entries : Entries) : Entries :=
  atKey "components" upgradeComponents
    (atKey "paths" (onValues upgradePathItem) (entries.set "openapi" (.str upgradedVersion)))

def upgrade : Value → Except Fault Value
  | .map entries => .ok (.map (upgradeEntries entries))
  | _ => .error (.shape .wrongKind)

end Dialect

end Bindery

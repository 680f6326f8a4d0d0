import Bindery.Dialect.Basic

/-!
# Schemas between dialects

A conversion of schemas is a rule on the entries of one schema object.  It is
applied to every schema object inside a schema, the inner ones first, and what
holds no schema is kept.
-/

namespace Bindery

namespace Dialect

/-- Keywords whose map value holds a schema under each name. -/
def namedSchemaKeys : List String := ["properties", "patternProperties", "$defs", "definitions"]

/-- Keywords whose map value is a schema. -/
def singleSchemaKeys : List String := ["items", "additionalProperties", "not", "contains"]

/-- Keywords whose list value holds schemas. -/
def listedSchemaKeys : List String := ["allOf", "anyOf", "oneOf", "prefixItems", "items"]

mutual

/-- Applies a rule to every schema object of a schema, the inner ones first. -/
def walk (rule : Entries → Entries) : Value → Value
  | .map entries => .map (rule (walkEntries rule entries))
  | .list items => .list items
  | .scalar value => .scalar value

def walkEntries (rule : Entries → Entries) : List (Scalar × Value) → List (Scalar × Value)
  | [] => []
  | (key, value) :: rest => (key, walkPart rule key value) :: walkEntries rule rest

def walkPart (rule : Entries → Entries) (key : Scalar) : Value → Value
  | .map entries =>
    if key.isOneOf namedSchemaKeys then .map (walkNamed rule entries)
    else if key.isOneOf singleSchemaKeys then .map (rule (walkEntries rule entries))
    else .map entries
  | .list items => if key.isOneOf listedSchemaKeys then .list (walkList rule items) else .list items
  | .scalar value => .scalar value

def walkNamed (rule : Entries → Entries) : List (Scalar × Value) → List (Scalar × Value)
  | [] => []
  | (name, schema) :: rest => (name, walk rule schema) :: walkNamed rule rest

def walkList (rule : Entries → Entries) : List Value → List Value
  | [] => []
  | schema :: rest => walk rule schema :: walkList rule rest

end

def liftNull (node : Entries) : Entries :=
  let rest := node.erase "x-nullable"
  if node.get? "x-nullable" = some (.bool true) then rest.set "nullable" (.bool true) else rest

def liftFile (node : Entries) : Entries :=
  if node.get? "type" = some (.str "file") then
    (node.set "type" (.str "string")).set "format" (.str "binary")
  else node

def liftDiscriminator (node : Entries) : Entries :=
  match node.get? "discriminator" with
  | some (.str name) => node.set "discriminator" (.map [(.str "propertyName", .str name)])
  | _ => node

def liftNode (node : Entries) : Entries :=
  liftDiscriminator (liftFile (liftNull node))

def addNullType (kind : Value) : Value :=
  let kinds := match kind with
    | .list kinds => kinds
    | kind => [kind]
  .list (if kinds.any (·.isText "null") then kinds else kinds ++ [.str "null"])

def addNullMember (node : Entries) : Entries :=
  match node.get? "enum" with
  | some (.list values) =>
    if values.contains .null then node else node.set "enum" (.list (values ++ [.null]))
  | _ => node

/-- Turns the null mark of a schema object into a type; an object without a type keeps it. -/
def upgradeNull (node : Entries) : Entries :=
  let rest := node.erase "nullable"
  if node.get? "nullable" = some (.bool true) then
    match rest.get? "type" with
    | some kind => addNullMember (rest.set "type" (addNullType kind))
    | none => rest.set "nullable" (.bool true)
  else rest

def upgradeExclusive (exclusive bound : String) (node : Entries) : Entries :=
  match node.get? exclusive with
  | some (.bool true) =>
    match node.get? bound with
    | some limit => (node.erase bound).set exclusive limit
    | none => node.erase exclusive
  | some (.bool false) => node.erase exclusive
  | _ => node

def upgradeExample (node : Entries) : Entries :=
  match node.get? "example" with
  | some sample =>
    if node.has "examples" then node else (node.erase "example").set "examples" (.list [sample])
  | none => node

def upgradeNode (node : Entries) : Entries :=
  upgradeExample (upgradeExclusive "exclusiveMaximum" "maximum"
    (upgradeExclusive "exclusiveMinimum" "minimum" (upgradeNull node)))

def liftSchema (schema : Value) : Value :=
  walk liftNode schema

def upgradeSchema (schema : Value) : Value :=
  walk upgradeNode schema

def convertSchema (schema : Value) : Dialect → Value
  | .v20 => upgradeSchema (liftSchema schema)
  | .v30 => upgradeSchema schema
  | .v31 => schema
  | .unknown => schema

end Dialect

end Bindery

import Bindery.Diagnostic
import Bindery.Run
import Bindery.Schema.Constraints
import Bindery.Value.Shape

/-!
# Reading schemas

A document value at a place of a schema becomes a schema node.  The surroundings
of the reader say what a reference stands for and where a keyword without
effect is reported, so that registering targets stays outside.
-/

namespace Bindery

/-- What a reference stands for: the key of its target, and whether the target is unfinished. -/
structure Target where
  key : String
  forward : Bool
deriving DecidableEq, Repr

structure Surroundings (State : Type) where
  resolve : String → Run State Target
  report : Diagnostic → Run State Unit

namespace Schema

def noteOf (schema : Value) : Note where
  description := (schema.get? "description").bind Value.toText?
  default := schema.get? "default"

def hasKey (schema : Value) (keyword : String) : Bool :=
  (schema.get? keyword).isSome

def unsupportedKeywords : List String :=
  ["not", "if", "patternProperties", "prefixItems", "dependentSchemas"]

def unsupported (schema : Value) (place : String) : List Diagnostic :=
  (unsupportedKeywords.filter (hasKey schema)).map fun keyword =>
    { code := .unsupportedKeyword
      message := "Keyword '" ++ keyword ++ "' is not enforced by generated validators"
      location := some place }

def enumeration? (schema : Value) : Option Node :=
  match schema.get? "x-extensible-enum" with
  | some (.list values) => some (.enumeration (noteOf schema) values true)
  | _ =>
    match schema.get? "enum" with
    | some (.list values) => some (.enumeration (noteOf schema) values false)
    | _ => (schema.get? "const").map fun value => .enumeration (noteOf schema) [value] false

def membersOf (schema : Value) (mode : Composition) : Option (List Value) :=
  (schema.get? mode.text).bind Value.toList?

def composition? (schema : Value) : Option (Composition × List Value) :=
  [Composition.allOf, .anyOf, .oneOf].findSome? fun mode =>
    (membersOf schema mode).map fun members => (mode, members)

/-- Whether a schema has keywords of an object beside its composition. -/
def hasOwnShape (schema : Value) : Bool :=
  ["properties", "additionalProperties", "required"].any (hasKey schema)

def requiredNames (schema : Value) : Except Fault (List String) := do
  let items ← Value.itemsOrNone ((schema.get? "required").filter Value.isTruthy)
  return items.filterMap Value.toText?

def objectNode (note : Note) (properties : List (Scalar × Node)) (required : List String)
    (extras : Extras Node) (declared : Bool) (title : Option Value) : Except Fault Node :=
  let names := properties.map fun property =>
    match property.1 with
    | .str name => some (name, property.2)
    | _ => none
  let keyProblems : List FieldProblem :=
    if names.any Option.isNone then [{ field := "properties", fault := .notText }] else []
  match keyProblems, Field.optional Field.text title with
  | [], .ok title => .ok (.object note (names.filterMap id) required extras declared title)
  | problems, title => .error (.invalid .object (problems ++ Field.problem? "title" title))

def arrayNode (schema : Value) (note : Note) (items : Option Node) : Except Fault Node :=
  let unique := ((schema.get? "uniqueItems").getD (.bool false)).isTruthy
  match Field.optional Field.integer (schema.get? "minItems"),
    Field.optional Field.integer (schema.get? "maxItems") with
  | .ok least, .ok most => .ok (.array note items least most unique)
  | least, most =>
    .error (.invalid .array (Field.problem? "min_items" least ++ Field.problem? "max_items" most))

def primitiveNode (schema : Value) (note : Note) (kind : PrimitiveKind) : Except Fault Node := do
  return .primitive note kind ((schema.get? "format").bind Value.toText?)
    (← Constraints.ofSchema schema)

/-- The reference that a discriminator value is mapped to; a bare name is one of the components. -/
def mappingReference : Value → Except Fault String
  | .str target =>
    .ok (if Text.hasChar target '#' || Text.hasChar target '/' then target
      else "#/components/schemas/" ++ target)
  | value => do
    let marked := (← value.holdsText "#") || (← value.holdsText "/")
    if marked then .error (.shape .noMember)
    else .ok ("#/components/schemas/" ++ value.text)

/-- Puts a text under a key: in place if the key is present, at the end if not. -/
def putPair (key value : String) : List (String × String) → List (String × String)
  | [] => [(key, value)]
  | (old, oldValue) :: rest =>
    if old = key then (old, value) :: rest else (old, oldValue) :: putPair key value rest

def readMapping {State : Type} (surroundings : Surroundings State)
    (done : List (String × String)) : Entries → Run State (List (String × String))
  | [] => return done
  | (tag, target) :: rest => do
    let reference ← Run.ofExcept (mappingReference target)
    let resolved ← surroundings.resolve reference
    readMapping surroundings (putPair tag.text resolved.key done) rest

def readDiscriminator {State : Type} (surroundings : Surroundings State)
    (raw : Option Value) : Run State (Option Discriminator) :=
  match raw.bind Value.toEntries? with
  | none => return none
  | some entries =>
    match entries.get? "propertyName" with
    | some (.str property) =>
      match entries.get? "mapping" with
      | some (.map mapping) => do
        return some { property, mapping := some (← readMapping surroundings [] mapping) }
      | _ => return some { property, mapping := none }
    | _ => return none

theorem weightList_lt_of_membersOf {schema : Value} {mode : Composition} {members : List Value}
    (found : membersOf schema mode = some members) :
    Value.weightList members < schema.weight := by
  unfold membersOf at found
  cases stored : schema.get? mode.text with
  | none => simp [stored] at found
  | some value =>
    have smaller := Value.weight_lt_of_get? stored
    cases value with
    | list items =>
      simp only [stored, Option.bind_some, Value.toList?, Option.some.injEq] at found
      subst found
      simp only [Value.weight] at smaller
      omega
    | scalar _ => simp [stored, Value.toList?] at found
    | map _ => simp [stored, Value.toList?] at found

theorem weightList_lt_of_composition? {schema : Value} {mode : Composition} {members : List Value}
    (found : composition? schema = some (mode, members)) :
    Value.weightList members < schema.weight := by
  obtain ⟨tried, _, result⟩ := List.exists_of_findSome?_eq_some found
  obtain ⟨items, stored, same⟩ := Option.map_eq_some_iff.1 result
  cases same
  exact weightList_lt_of_membersOf stored

theorem weight_type_le (schema : Value) :
    ((schema.get? "type").getD .null).weight ≤ schema.weight := by
  cases stored : schema.get? "type" with
  | none => exact schema.weight_pos
  | some kind => exact Nat.le_of_lt (Value.weight_lt_of_get? stored)

/-- What a walk over a part needs is less than what is left in the whole. -/
theorem span_lt {part whole : Nat} (smaller : part < whole) :
    part * part + 6 * part + 4 < whole * whole + 4 * whole := by
  have squares := Nat.mul_self_le_mul_self (Nat.succ_le_of_lt smaller)
  simp only [Nat.succ_eq_add_one, Nat.add_mul, Nat.mul_add] at squares
  omega

mutual

def read {State : Type} (surroundings : Surroundings State) (schema : Value) (place : String) :
    Run State Node :=
  match schema with
  | .map entries =>
    let nullable := Entries.get? "nullable" entries == some (.bool true)
    match Entries.get? "$ref" entries with
    | some (.str reference) => do
      let target ← surroundings.resolve reference
      let node := Node.reference (noteOf (.map entries)) target.key target.forward
      return if nullable then .typeArray {} [node, .null {}] else node
    | _ => do
      let node ← readBody surroundings (.map entries) place
      return if nullable then .typeArray (noteOf (.map entries)) [node, .null {}] else node
  | _ => return .any {}
termination_by schema.weight * schema.weight + 6 * schema.weight + 3

def readBody {State : Type} (surroundings : Surroundings State) (schema : Value)
    (place : String) : Run State Node := do
  (unsupported schema place).forM surroundings.report
  match enumeration? schema with
  | some node => return node
  | none =>
    match _found : composition? schema with
    | none =>
      readTyped surroundings schema ((schema.get? "type").getD .null) place (noteOf schema)
    | some (mode, items) => do
      let members ← readMembers surroundings items (place ++ "/" ++ mode.text ++ "/") 0
      match mode with
      | .allOf =>
        if hasOwnShape schema then do
          let own ← readObject surroundings schema place {} none
          return .composition (noteOf schema) .allOf (members ++ [own]) none
        else return .composition (noteOf schema) .allOf members none
      | mode => do
        let discriminator ← readDiscriminator surroundings (schema.get? "discriminator")
        if hasOwnShape schema then do
          let own ← readObject surroundings schema place {} none
          return .composition (noteOf schema) .allOf
            [own, .composition {} mode members discriminator] none
        else return .composition (noteOf schema) mode members discriminator
termination_by schema.weight * schema.weight + 6 * schema.weight + 2
decreasing_by
  · have := weight_type_le schema
    omega
  · have := span_lt (weightList_lt_of_composition? _found)
    omega
  all_goals omega

def readTyped {State : Type} (surroundings : Surroundings State) (schema kind : Value)
    (place : String) (note : Note) : Run State Node :=
  match kind with
  | .list [kind] => readTyped surroundings schema kind place note
  | .list kinds => do
    return .typeArray note (← readTypes surroundings schema kinds place)
  | .scalar (.str word) =>
    match PrimitiveKind.ofText? word with
    | some kind => Run.ofExcept (primitiveNode schema note kind)
    | none =>
      if word = "null" then return .null note
      else if word = "array" then readArray surroundings schema place note
      else if word = "object" then
        readObject surroundings schema place note (schema.get? "title")
      else return .any note
  | .scalar .null =>
    if hasKey schema "properties" || hasKey schema "additionalProperties" then
      readObject surroundings schema place note (schema.get? "title")
    else if hasKey schema "items" then readArray surroundings schema place note
    else return .any note
  | _ => return .any note
termination_by schema.weight * schema.weight + 4 * schema.weight + 1 + 2 * kind.weight
decreasing_by all_goals simp only [Value.weight, Value.weightList]; omega

/-- Reads a schema once for each of several types, without its note. -/
def readTypes {State : Type} (surroundings : Surroundings State) (schema : Value)
    (kinds : List Value) (place : String) : Run State (List Node) :=
  match kinds with
  | [] => return []
  | kind :: rest => do
    let node ←
      if kind.isText "null" then pure (.null {})
      else readTyped surroundings schema kind place {}
    return node :: (← readTypes surroundings schema rest place)
termination_by schema.weight * schema.weight + 4 * schema.weight + 2 + 2 * Value.weightList kinds
decreasing_by
  all_goals
    have := kind.weight_pos
    simp only [Value.weightList]
    omega

def readItems {State : Type} (surroundings : Surroundings State) (schema : Value)
    (place : String) : Run State (Option Node) :=
  match _found : schema.get? "items" with
  | some (.map entries) => do
    return some (← read surroundings (.map entries) (place ++ "/items"))
  | _ => return none
termination_by schema.weight * schema.weight + 4 * schema.weight
decreasing_by
  have := span_lt (Value.weight_lt_of_get? _found)
  omega

def readArray {State : Type} (surroundings : Surroundings State) (schema : Value)
    (place : String) (note : Note) : Run State Node := do
  let items ← readItems surroundings schema place
  Run.ofExcept (arrayNode schema note items)
termination_by schema.weight * schema.weight + 4 * schema.weight + 1

def readDeclared {State : Type} (surroundings : Surroundings State) (schema : Value)
    (place : String) : Run State (List (Scalar × Node)) :=
  match _found : schema.get? "properties" with
  | some (.map entries) => readProperties surroundings entries (place ++ "/properties/")
  | some value => if value.isTruthy then throw (.shape .noMember) else return []
  | none => return []
termination_by schema.weight * schema.weight + 4 * schema.weight
decreasing_by
  have smaller := Value.weight_lt_of_get? _found
  rw [Value.weight] at smaller
  have := span_lt (Nat.lt_of_le_of_lt (Nat.le_add_left _ 1) smaller)
  omega

def readExtras {State : Type} (surroundings : Surroundings State) (schema : Value)
    (place : String) : Run State (Extras Node) :=
  match _found : schema.get? "additionalProperties" with
  | some (.scalar (.bool false)) => return .closed
  | some (.map (entry :: entries)) => do
    return .typed
      (← read surroundings (.map (entry :: entries)) (place ++ "/additionalProperties"))
  | _ => return .open
termination_by schema.weight * schema.weight + 4 * schema.weight
decreasing_by
  have := span_lt (Value.weight_lt_of_get? _found)
  omega

def readObject {State : Type} (surroundings : Surroundings State) (schema : Value)
    (place : String) (note : Note) (title : Option Value) : Run State Node := do
  let properties ← readDeclared surroundings schema place
  let extras ← readExtras surroundings schema place
  let required ← Run.ofExcept (requiredNames schema)
  Run.ofExcept (objectNode note properties required extras
    (hasKey schema "additionalProperties") title)
termination_by schema.weight * schema.weight + 4 * schema.weight + 1

def readProperties {State : Type} (surroundings : Surroundings State)
    (properties : List (Scalar × Value)) (place : String) : Run State (List (Scalar × Node)) :=
  match properties with
  | [] => return []
  | (name, schema) :: rest => do
    let node ← read surroundings schema (place ++ name.text)
    return (name, node) :: (← readProperties surroundings rest place)
termination_by Value.weightEntries properties * Value.weightEntries properties + 6 * Value.weightEntries properties + 4
decreasing_by
  · have := Nat.mul_self_le_mul_self (Nat.le_add_right schema.weight (Value.weightEntries rest))
    simp only [Value.weightEntries]
    omega
  · have := Nat.mul_self_le_mul_self (Nat.le_add_left (Value.weightEntries rest) schema.weight)
    have := schema.weight_pos
    simp only [Value.weightEntries]
    omega

def readMembers {State : Type} (surroundings : Surroundings State) (members : List Value)
    (place : String) (index : Nat) : Run State (List Node) :=
  match members with
  | [] => return []
  | schema :: rest => do
    let node ← read surroundings schema (place ++ Text.decimal index)
    return node :: (← readMembers surroundings rest place (index + 1))
termination_by Value.weightList members * Value.weightList members + 6 * Value.weightList members + 4
decreasing_by
  · have := Nat.mul_self_le_mul_self (Nat.le_add_right schema.weight (Value.weightList rest))
    simp only [Value.weightList]
    omega
  · have := Nat.mul_self_le_mul_self (Nat.le_add_left (Value.weightList rest) schema.weight)
    have := schema.weight_pos
    simp only [Value.weightList]
    omega

end

end Schema

end Bindery

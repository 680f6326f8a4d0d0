import Bindery.Value.Basic

/-!
# Schema nodes

A schema in the form that everything behind the reader works on.  A reference names
its target by text: the key of a registered schema at first, the name of a type
later.
-/

namespace Bindery

structure Note where
  description : Option String := none
  default : Option Value := none
deriving DecidableEq

inductive PrimitiveKind where
  | string
  | number
  | integer
  | boolean
deriving DecidableEq, Repr

def PrimitiveKind.text : PrimitiveKind → String
  | .string => "string"
  | .number => "number"
  | .integer => "integer"
  | .boolean => "boolean"

def PrimitiveKind.ofText? (text : String) : Option PrimitiveKind :=
  [PrimitiveKind.string, .number, .integer, .boolean].find? (·.text == text)

structure Constraints where
  minLength : Option Int := none
  maxLength : Option Int := none
  pattern : Option String := none
  minimum : Option Double := none
  maximum : Option Double := none
  exclusiveMinimum : Option Double := none
  exclusiveMaximum : Option Double := none
  multipleOf : Option Double := none
deriving DecidableEq

def Constraints.isEmpty (constraints : Constraints) : Bool :=
  constraints == {}

inductive Composition where
  | allOf
  | anyOf
  | oneOf
deriving DecidableEq, Repr

def Composition.text : Composition → String
  | .allOf => "allOf"
  | .anyOf => "anyOf"
  | .oneOf => "oneOf"

/-- A property whose value tells the members of a union apart, with the targets of its values. -/
structure Discriminator where
  property : String
  mapping : Option (List (String × String))
deriving DecidableEq

/-- How an object treats the keys it does not declare. -/
inductive Extras (Schema : Type) where
  | closed
  | open
  | typed (schema : Schema)
deriving DecidableEq

inductive Node where
  | primitive (note : Note) (kind : PrimitiveKind) (format : Option String)
      (constraints : Constraints)
  | null (note : Note)
  | any (note : Note)
  | array (note : Note) (items : Option Node) (minItems maxItems : Option Int) (unique : Bool)
  | object (note : Note) (properties : List (String × Node)) (required : List String)
      (extras : Extras Node) (declared : Bool) (title : Option String)
  | composition (note : Note) (mode : Composition) (members : List Node)
      (discriminator : Option Discriminator)
  | reference (note : Note) (target : String) (forward : Bool)
  | enumeration (note : Note) (values : List Value) (extensible : Bool)
  | typeArray (note : Note) (members : List Node)

namespace Node

def note : Node → Note
  | .primitive note .. => note
  | .null note => note
  | .any note => note
  | .array note .. => note
  | .object note .. => note
  | .composition note .. => note
  | .reference note .. => note
  | .enumeration note .. => note
  | .typeArray note .. => note

def kindWord : Node → String
  | .primitive .. => "primitive"
  | .null _ => "null"
  | .any _ => "any"
  | .array .. => "array"
  | .object .. => "object"
  | .composition .. => "composition"
  | .reference .. => "reference"
  | .enumeration .. => "enum"
  | .typeArray .. => "type_array"

def isNull : Node → Bool
  | .null _ => true
  | _ => false

def target? : Node → Option String
  | .reference _ target _ => some target
  | _ => none

mutual

def same : Node → Node → Bool
  | .primitive note kind format limits, .primitive note' kind' format' limits' =>
    note = note' && kind = kind' && format = format' && limits = limits'
  | .null note, .null note' => note = note'
  | .any note, .any note' => note = note'
  | .array note none least most unique, .array note' none least' most' unique' =>
    note = note' && least = least' && most = most' && unique = unique'
  | .array note (some items) least most unique, .array note' (some items') least' most' unique' =>
    note = note' && same items items' && least = least' && most = most' && unique = unique'
  | .object note properties required extras declared title,
      .object note' properties' required' extras' declared' title' =>
    note = note' && sameProperties properties properties' && required = required' &&
      sameExtras extras extras' && declared = declared' && title = title'
  | .composition note mode members tags, .composition note' mode' members' tags' =>
    note = note' && mode = mode' && sameList members members' && tags = tags'
  | .reference note target forward, .reference note' target' forward' =>
    note = note' && target = target' && forward = forward'
  | .enumeration note values extensible, .enumeration note' values' extensible' =>
    note = note' && values = values' && extensible = extensible'
  | .typeArray note members, .typeArray note' members' => note = note' && sameList members members'
  | _, _ => false

def sameList : List Node → List Node → Bool
  | [], [] => true
  | node :: rest, node' :: rest' => same node node' && sameList rest rest'
  | _, _ => false

def sameProperties : List (String × Node) → List (String × Node) → Bool
  | [], [] => true
  | (name, node) :: rest, (name', node') :: rest' =>
    name = name' && same node node' && sameProperties rest rest'
  | _, _ => false

def sameExtras : Extras Node → Extras Node → Bool
  | .closed, .closed => true
  | .open, .open => true
  | .typed node, .typed node' => same node node'
  | _, _ => false

end

mutual

theorem same_iff : ∀ node node' : Node, same node node' = true ↔ node = node'
  | .array _ none .., node' => by
    cases node' with
    | array _ items => cases items <;> simp [same, and_assoc]
    | _ => simp [same]
  | .array _ (some items) .., node' => by
    cases node' with
    | array _ items' => cases items' <;> simp [same, same_iff items, and_assoc]
    | _ => simp [same]
  | .object _ properties _ extras .., node' => by
    cases node' <;> simp [same, sameProperties_iff properties, sameExtras_iff extras, and_assoc]
  | .composition _ _ members _, node' => by
    cases node' <;> simp [same, sameList_iff members, and_assoc]
  | .typeArray _ members, node' => by cases node' <;> simp [same, sameList_iff members]
  | .primitive .., node' | .null _, node' | .any _, node' | .reference .., node'
  | .enumeration .., node' => by cases node' <;> simp [same, and_assoc]

theorem sameList_iff : ∀ nodes nodes' : List Node, sameList nodes nodes' = true ↔ nodes = nodes'
  | [], nodes' => by cases nodes' <;> simp [sameList]
  | node :: rest, nodes' => by
    cases nodes' <;> simp [sameList, same_iff node, sameList_iff rest]

theorem sameProperties_iff : ∀ properties properties' : List (String × Node),
    sameProperties properties properties' = true ↔ properties = properties'
  | [], properties' => by cases properties' <;> simp [sameProperties]
  | (_, node) :: rest, properties' => by
    rcases properties' with _ | ⟨⟨_, node'⟩, rest'⟩ <;>
      simp [sameProperties, same_iff node, sameProperties_iff rest, and_assoc]

theorem sameExtras_iff : ∀ extras extras' : Extras Node,
    sameExtras extras extras' = true ↔ extras = extras'
  | .closed, extras' | .open, extras' => by cases extras' <;> simp [sameExtras]
  | .typed node, extras' => by cases extras' <;> simp [sameExtras, same_iff node]

end

instance : DecidableEq Node := fun node node' => decidable_of_iff _ (same_iff node node')

end Node

end Bindery

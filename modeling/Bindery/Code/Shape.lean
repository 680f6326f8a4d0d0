import Bindery.Schema.Node

/-!
# Looking through references

Some questions about a schema are asked of what its references lead to.  These are
followed at most once each, so a cycle leads nowhere.
-/

namespace Bindery

abbrev NamedNodes := List (String × Node)

namespace Node

/-- What a schema is behind its references; at most `fuel` references are followed. -/
def lookThrough (types : NamedNodes) : (fuel : Nat) → (seen : List String) → Node → Node
  | 0, _, node => node
  | fuel + 1, seen, node =>
    match node with
    | .reference note target forward =>
      if seen.contains target then .reference note target forward
      else
        match types.lookup target with
        | none => .reference note target forward
        | some node => lookThrough types fuel (target :: seen) node
    | node => node

def shape (types : NamedNodes) (node : Node) : Node :=
  node.lookThrough types types.length []

/-- Whether the keys an object accepts can hold what another object requires. -/
def admits (required : List String) (extras : Extras Node) (properties : List (String × Node)) :
    Bool :=
  match extras with
  | .closed => false
  | _ => required.all fun name => properties.any fun property => property.1 == name

def kindsOverlap (a b : PrimitiveKind) : Bool :=
  a == b || (a == .integer && b == .number) || (a == .number && b == .integer)

/-- Whether two schemas accept common values, as far as their outer shapes tell. -/
def overlaps : Node → Node → Bool
  | .any _, _ => true
  | _, .any _ => true
  | .primitive _ a _ _, .primitive _ b _ _ => kindsOverlap a b
  | .object _ properties required extras _ _, .object _ properties' required' extras' _ _ =>
    admits required extras properties' || admits required' extras' properties
  | .array .., .array .. => true
  | .null _, .null _ => true
  | _, _ => false

def onlyValue? : Node → Option Value
  | .enumeration _ [value] _ => some value
  | _ => none

mutual

/-- The literal value of a property; `follow` says what it is behind a reference. -/
def tagIn (follow : String → Option Value) (property : String) : Node → Option Value
  | .reference _ target _ => follow target
  | .object _ properties _ _ _ _ => (properties.lookup property).bind onlyValue?
  | .composition _ .allOf members _ => tagInList follow property members
  | _ => none

def tagInList (follow : String → Option Value) (property : String) : List Node → Option Value
  | [] => none
  | node :: rest => (tagIn follow property node).or (tagInList follow property rest)

end

/-- The literal value of a property behind a reference; at most `fuel` references are
followed. -/
def tagBehind (types : NamedNodes) (property : String) :
    (fuel : Nat) → (seen : List String) → (target : String) → Option Value
  | 0, _, _ => none
  | fuel + 1, seen, target =>
    if seen.contains target then none
    else
      (types.lookup target).bind
        (tagIn (tagBehind types property fuel (target :: seen)) property)

def literalTag (types : NamedNodes) (property : String) (node : Node) : Option Value :=
  tagIn (tagBehind types property types.length []) property node

/-- The value by which a member of a union is told apart: a literal value, or else the name of
the type it refers to. -/
def inferredTag (types : NamedNodes) (property : String) (node : Node) : Option Value :=
  (node.literalTag types property).or (node.target?.map .str)

end Node

end Bindery

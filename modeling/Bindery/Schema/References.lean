import Bindery.Schema.Node

/-!
# The references of a schema

The targets a schema mentions, in the order of a walk through it, and the
renaming of targets.  A target is direct if some reference to it is not a
forward reference; the targets of a discriminator are never direct.
-/

namespace Bindery

def Discriminator.targets (discriminator : Discriminator) : List String :=
  (discriminator.mapping.getD []).map (·.2)

def Discriminator.targetsOf : Option Discriminator → List String
  | none => []
  | some discriminator => discriminator.targets

namespace Node

mutual

/-- The targets a schema mentions, with repetitions; only the direct ones without `all`. -/
def mentions (all : Bool) : Node → List String
  | .primitive .. => []
  | .null _ => []
  | .any _ => []
  | .array _ items _ _ _ => mentionsOption all items
  | .object _ properties _ extras _ _ =>
    mentionsProperties all properties ++ mentionsExtras all extras
  | .composition _ _ members discriminator =>
    mentionsList all members ++ (if all then Discriminator.targetsOf discriminator else [])
  | .reference _ target forward => if all || !forward then [target] else []
  | .enumeration .. => []
  | .typeArray _ members => mentionsList all members

def mentionsOption (all : Bool) : Option Node → List String
  | none => []
  | some node => mentions all node

def mentionsProperties (all : Bool) : List (String × Node) → List String
  | [] => []
  | (_, node) :: rest => mentions all node ++ mentionsProperties all rest

def mentionsExtras (all : Bool) : Extras Node → List String
  | .closed => []
  | .open => []
  | .typed node => mentions all node

def mentionsList (all : Bool) : List Node → List String
  | [] => []
  | node :: rest => mentions all node ++ mentionsList all rest

end

/-- Every target a schema mentions, each once, in the order of first mention. -/
def targets (node : Node) : List String :=
  (node.mentions true).eraseDups

/-- The targets a schema mentions directly, each once, in the order of first mention. -/
def directTargets (node : Node) : List String :=
  (node.mentions false).eraseDups

end Node

/-- The name of a target; a target without one keeps its text. -/
def targetName (names : List (String × String)) (target : String) : String :=
  (names.lookup target).getD target

def Discriminator.rename (names : List (String × String)) (discriminator : Discriminator) :
    Discriminator :=
  { discriminator with
    mapping := discriminator.mapping.map fun mapping =>
      mapping.map fun branch => (branch.1, targetName names branch.2) }

namespace Node

mutual

def rename (names : List (String × String)) : Node → Node
  | .primitive note kind format constraints => .primitive note kind format constraints
  | .null note => .null note
  | .any note => .any note
  | .array note items minItems maxItems unique =>
    .array note (renameOption names items) minItems maxItems unique
  | .object note properties required extras declared title =>
    .object note (renameProperties names properties) required (renameExtras names extras) declared
      title
  | .composition note mode members discriminator =>
    .composition note mode (renameList names members)
      (discriminator.map (Discriminator.rename names))
  | .reference note target forward => .reference note (targetName names target) forward
  | .enumeration note values extensible => .enumeration note values extensible
  | .typeArray note members => .typeArray note (renameList names members)

def renameOption (names : List (String × String)) : Option Node → Option Node
  | none => none
  | some node => some (rename names node)

def renameProperties (names : List (String × String)) :
    List (String × Node) → List (String × Node)
  | [] => []
  | (name, node) :: rest => (name, rename names node) :: renameProperties names rest

def renameExtras (names : List (String × String)) : Extras Node → Extras Node
  | .closed => .closed
  | .open => .open
  | .typed node => .typed (rename names node)

def renameList (names : List (String × String)) : List Node → List Node
  | [] => []
  | node :: rest => rename names node :: renameList names rest

end

end Node

end Bindery

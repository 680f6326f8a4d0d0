import Bindery.Proofs.Schema.Parts

/-!
# Schemas with other targets

A schema whose targets are replaced has the same shape, and it mentions the
replaced targets.  Which references are forward ones is forgotten, so two schemas
that are the same once their targets are replaced differ in references alone.
-/

namespace Bindery

/-- Replaces the targets of a discriminator. -/
def Discriminator.redirect (change : String → String) (discriminator : Discriminator) :
    Discriminator :=
  { discriminator with
    mapping := discriminator.mapping.map fun mapping =>
      mapping.map fun branch => (branch.1, change branch.2) }

namespace Node

mutual

/-- Replaces the targets of a schema, and forgets which references are forward ones. -/
def redirect (change : String → String) : Node → Node
  | .primitive note kind format constraints => .primitive note kind format constraints
  | .null note => .null note
  | .any note => .any note
  | .array note items minItems maxItems unique =>
    .array note (redirectOption change items) minItems maxItems unique
  | .object note properties required extras declared title =>
    .object note (redirectProperties change properties) required (redirectExtras change extras)
      declared title
  | .composition note mode members discriminator =>
    .composition note mode (redirectList change members)
      (discriminator.map (Discriminator.redirect change))
  | .reference note target _ => .reference note (change target) false
  | .enumeration note values extensible => .enumeration note values extensible
  | .typeArray note members => .typeArray note (redirectList change members)

def redirectOption (change : String → String) : Option Node → Option Node
  | none => none
  | some node => some (redirect change node)

def redirectProperties (change : String → String) : List (String × Node) → List (String × Node)
  | [] => []
  | (name, node) :: rest => (name, redirect change node) :: redirectProperties change rest

def redirectExtras (change : String → String) : Extras Node → Extras Node
  | .closed => .closed
  | .open => .open
  | .typed node => .typed (redirect change node)

def redirectList (change : String → String) : List Node → List Node
  | [] => []
  | node :: rest => redirect change node :: redirectList change rest

end

variable (change : String → String)

theorem redirectList_eq (nodes : List Node) :
    redirectList change nodes = nodes.map (redirect change) := by
  induction nodes with
  | nil => rfl
  | cons node rest ih => rw [redirectList, ih, List.map_cons]

/-- Properties are their names, which stay, next to their schemas, which are replaced. -/
theorem redirectProperties_eq (properties : List (String × Node)) :
    redirectProperties change properties =
      (properties.map (·.1)).zip ((properties.map (·.2)).map (redirect change)) := by
  induction properties with
  | nil => rfl
  | cons property rest ih => rw [redirectProperties, ih]; rfl

theorem children_redirect (node : Node) :
    (node.redirect change).children = node.children.map (redirect change) := by
  cases node with
  | array note items => cases items <;> rfl
  | object note properties required extras =>
    cases extras <;> simp [redirect, redirectProperties_eq, redirectExtras, children,
      Extras.schemas, List.map_snd_zip]
  | composition => exact redirectList_eq change _
  | typeArray => exact redirectList_eq change _
  | _ => rfl

theorem mentions_redirect (node : Node) :
    (node.redirect change).mentions true = (node.mentions true).map change := by
  refine mentions_change true (children_redirect change) (fun node => ?_) node
  cases node with
  | composition note mode members discriminator =>
    rcases discriminator with _ | ⟨property, _ | branches⟩ <;>
      simp [redirect, ownTargets, Discriminator.targetsOf, Discriminator.targets,
        Discriminator.redirect]
  | _ => rfl

end Node

end Bindery

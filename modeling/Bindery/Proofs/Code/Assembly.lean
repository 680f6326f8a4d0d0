import Bindery.Code.Compile
import Bindery.Proofs.Course
import Bindery.Proofs.Schema.Parts

/-!
# How code is assembled

Compiling a schema compiles its parts, each at its own place, and puts their
fragments together; last comes the default value.  So what is shown of the
fragments of the parts is carried over to the whole in one step.

The tags of a union are found in one pass over its members, whether there is a
mapping or not.  A mapping only decides where the pass begins, which members it
leaves out, and that a reference whose tag is taken does not end it.
-/

namespace Bindery.Code

open List Fragment

variable (scope : Scope) (coerce : Bool) (hint : String)

/-! ## Tagged unions -/

/-- Adds a branch for each member that the mapping does not cover. -/
def addBranches (discriminator : Discriminator) :
    List ((Node × TypeFragment) × Nat) → Branches → Compilation (Option Branches)
  | [], branches => return some branches
  | ((node, fragment), index) :: rest, branches =>
    if node.target?.any discriminator.targets.contains then
      addBranches discriminator rest branches
    else
      match node.inferredTag scope.types discriminator.property with
      | none => do
        Compilation.report (untaggable index hint discriminator.property false)
        return none
      | some value => do
        let tag ← Run.ofExcept value.needKey
        if isTaken tag branches then
          if discriminator.targets ≠ [] ∧ node.target?.isSome then
            addBranches discriminator rest branches
          else do
            Compilation.report (untaggable index hint discriminator.property true)
            return none
        else addBranches discriminator rest (branches ++ [(tag, fragment)])

variable {discriminator : Discriminator} (members : List ((Node × TypeFragment) × Nat))
  (branches : Branches)

theorem addUnmapped_eq (stated : discriminator.targets ≠ []) :
    addUnmapped scope hint discriminator.property discriminator.targets members branches =
      addBranches scope hint discriminator members branches := by
  induction members generalizing branches with
  | nil => rfl
  | cons member rest ih =>
    obtain ⟨⟨node, fragment⟩, index⟩ := member
    rw [addUnmapped, addBranches, Node.inferredTag]
    cases node.target? with
    | none => cases node.literalTag scope.types discriminator.property <;> simp [ih]
    | some target =>
      cases node.literalTag scope.types discriminator.property <;>
        · simp only [ih, stated, Option.any_some, Option.map_some, Option.some_or,
            Option.none_or, Option.getD_some, Option.isSome_some, ne_eq, not_false_eq_true,
            and_self, if_true, apply_ite (addBranches scope hint discriminator rest)]

theorem inferBranches_eq (unmapped : discriminator.targets = []) :
    inferBranches scope hint discriminator.property members branches =
      addBranches scope hint discriminator members branches := by
  induction members generalizing branches with
  | nil => rfl
  | cons member rest ih =>
    obtain ⟨⟨node, fragment⟩, index⟩ := member
    have uncovered : node.target?.any [].contains = false := by cases node.target? <;> rfl
    rw [inferBranches, addBranches]
    cases node.inferredTag scope.types discriminator.property <;>
      simp only [unmapped, uncovered, ih, Bool.false_eq_true, if_false, ne_eq, not_true, false_and]

/-- The fragment of a tagged union with some branches. -/
def taggedOf (property : String) (branches : Branches) : TypeFragment :=
  combine (.tagged property (branches.map fun branch => (branch.1, branch.2.code)))
    (branches.map (·.2))

theorem taggedUnion?_eq (members : List (Node × TypeFragment)) :
    taggedUnion? scope hint discriminator members = (do
      let branches? ← addBranches scope hint discriminator members.zipIdx
        (mappedBranches (discriminator.mapping.getD []) members)
      return branches?.map (taggedOf discriminator.property)) := by
  obtain ⟨property, mapping⟩ := discriminator
  rcases mapping with _ | (_ | ⟨branch, mapping⟩)
  · rw [← inferBranches_eq _ _ _ _ rfl]
    rfl
  · rw [← inferBranches_eq _ _ _ _ rfl]
    rfl
  · rw [← addUnmapped_eq _ _ _ _ (by simp [Discriminator.targets])]
    rfl

/-- The tagged union of some members, if a discriminator tells them apart. -/
def tagged? (discriminator : Option Discriminator) (members : List (Node × TypeFragment)) :
    Compilation (Option TypeFragment) :=
  match discriminator with
  | none => return none
  | some discriminator => taggedUnion? scope hint discriminator members

/-- The code of a union whose members are not told apart. -/
def untagged (mode : Composition) (members : List TypeFragment) : TypeExpr :=
  if mode = .anyOf then .union (members.map (·.code)) else .oneOf (members.map (·.code))

/-- Reports the first members that overlap, where the first match counts. -/
def reportOverlap (mode : Composition) (nodes : List Node) : Compilation Unit :=
  match mode, firstOverlap? (nodes.map (Node.shape scope.types)) with
  | .anyOf, some (first, second) => Compilation.report (overlapping first second hint)
  | _, _ => pure ()

theorem unionOf_eq (mode : Composition) (discriminator : Option Discriminator) (nodes : List Node)
    (members : List TypeFragment) :
    unionOf scope hint mode discriminator nodes members =
      if mode = .allOf then pure (combine (.allOf (members.map (·.code))) members)
      else do
        match ← tagged? scope hint discriminator (nodes.zip members) with
        | some tagged => return tagged
        | none => do
          reportOverlap scope hint mode nodes
          return combine (untagged mode members) members := by
  cases mode with
  | allOf => rfl
  | anyOf =>
    unfold unionOf reportOverlap
    cases discriminator <;> cases firstOverlap? (nodes.map (Node.shape scope.types)) <;> rfl
  | oneOf => cases discriminator <;> rfl

/-! ## Schemas -/

/-- The type that a pair with null makes optional. -/
def optionalMember? : List Node → Option Node
  | [.null _, .null _] => none
  | [.null _, member] => some member
  | [member, .null _] => some member
  | _ => none

theorem length_of_optionalMember? {members : List Node} {member : Node}
    (found : optionalMember? members = some member) : members.length = 2 := by
  unfold optionalMember? at found
  split at found <;> first | rfl | cases found

/-- The schemas that the code of a schema is made of, each with the place that its models are
named after. -/
def placedParts (hint : String) : Node → List (String × Node)
  | .array _ items _ _ _ => items.toList.map (hint ++ "Item", ·)
  | .object _ properties _ extras _ _ =>
    extras.schemas.map (hint ++ "Value", ·) ++ properties.map fun property =>
      (hint ++ Naming.pascalCase property.1 "Field", property.2)
  | .typeArray _ members => ((optionalMember? members).elim members fun member => [member]).map
      (hint, ·)
  | .composition _ mode members _ => (members.zipIdx 1).map fun member =>
    (hint ++ (if mode = .allOf then "Part" else "Option") ++ Text.decimal member.2, member.1)
  | _ => []

theorem mem_children_of_placed {hint : String} {node : Node} {part : String × Node}
    (member : part ∈ placedParts hint node) : part.2 ∈ node.children := by
  cases node with
  | array note items =>
    obtain ⟨item, inside, rfl⟩ := mem_map.mp member
    exact inside
  | object note properties required extras =>
    rcases mem_append.mp member with extra | declared
    · obtain ⟨schema, inside, rfl⟩ := mem_map.mp extra
      exact mem_append_right _ inside
    · obtain ⟨property, inside, rfl⟩ := mem_map.mp declared
      exact mem_append_left _ (mem_map.mpr ⟨property, inside, rfl⟩)
  | typeArray note members =>
    obtain ⟨schema, inside, rfl⟩ := mem_map.mp member
    revert inside
    unfold optionalMember?
    split <;> simp +contextual [Node.children]
  | composition note mode members =>
    obtain ⟨indexed, inside, rfl⟩ := mem_map.mp member
    exact fst_mem_of_mem_zipIdx inside
  | _ => cases member

/-- Compiles a schema at its place. -/
def compilePart (part : String × Node) : Compilation TypeFragment :=
  compile scope coerce part.1 part.2

/-- Puts the fragments of the parts of a schema together. -/
def assemble : Node → List TypeFragment → Compilation TypeFragment
  | .primitive _ kind format constraints, _ => do
    return { code := ← primitiveType coerce hint kind format constraints }
  | .null _, _ => return { code := .none }
  | .any _, _ => return anything
  | .enumeration _ values extensible, _ =>
    return { code := enumerationType coerce values extensible }
  | .reference _ target forward, _ => compileReference scope coerce target forward
  | .array _ _ least most unique, parts =>
    return arrayOf (parts.headD anything) least most unique
  | .object _ properties required extras declared _, parts =>
    let names := properties.map (·.1)
    let closed := refusesExtras scope extras declared
    match extras, parts with
    | .typed _, extra :: parts =>
      return modelOf hint (names.zip parts) required closed (some extra)
    | _, parts => return modelOf hint (names.zip parts) required closed none
  | .typeArray _ members, parts =>
    match optionalMember? members, parts with
    | some _, [inner] => return combine (.optional inner.code) [inner]
    | _, [fragment] => return fragment
    | _, parts => return combine (.union (parts.map (·.code))) parts
  | .composition _ mode members discriminator, parts =>
    match parts with
    | [] => return anything
    | [fragment] => return fragment
    | parts => unionOf scope hint mode discriminator members parts

theorem compileTypes_eq (nodes : List Node) :
    compileTypes scope coerce hint nodes =
      (nodes.map (hint, ·)).mapM (compilePart scope coerce) := by
  induction nodes with
  | nil => rw [compileTypes, map_nil, mapM_nil]
  | cons node rest ih =>
    rw [compileTypes, map_cons, mapM_cons, ih]
    rfl

theorem compileMembers_eq (index : Nat) (nodes : List Node) :
    compileMembers scope coerce hint index nodes =
      ((nodes.zipIdx index).map fun member => (hint ++ Text.decimal member.2, member.1)).mapM
        (compilePart scope coerce) := by
  induction nodes generalizing index with
  | nil => rw [compileMembers, zipIdx_nil, map_nil, mapM_nil]
  | cons node rest ih =>
    rw [compileMembers, zipIdx_cons, map_cons, mapM_cons, ih]
    rfl

theorem compileProperties_eq (properties : List (String × Node)) :
    compileProperties scope coerce hint properties = (do
      let parts ← (properties.map fun property =>
        (hint ++ Naming.pascalCase property.1 "Field", property.2)).mapM (compilePart scope coerce)
      return (properties.map (·.1)).zip parts) := by
  induction properties with
  | nil => rw [compileProperties, map_nil, mapM_nil]; rfl
  | cons property rest ih =>
    rw [compileProperties, map_cons, mapM_cons, ih]
    simp only [bind_assoc, pure_bind]
    rfl

/-- A schema is compiled by assembling the fragments of its parts. -/
theorem compile_eq (node : Node) :
    compile scope coerce hint node = (do
      let parts ← (placedParts hint node).mapM (compilePart scope coerce)
      let fragment ← assemble scope coerce hint node parts
      return fragment.withDefault node.note.default) := by
  cases node with
  | primitive note kind format constraints =>
    rw [compile]
    show _ = (primitiveType coerce hint kind format constraints >>= fun _ => pure _) >>= _
    rw [bind_assoc]
    rfl
  | array note items least most unique =>
    rw [compile, placedParts]
    cases items with
    | none =>
      rw [compileItems]
      rfl
    | some item =>
      rw [compileItems, Option.toList_some, map_singleton, mapM_cons, mapM_nil]
      simp only [pure_bind, bind_assoc]
      rfl
  | object note properties required extras declared title =>
    rw [compile, placedParts]
    cases extras with
    | typed extra =>
      rw [compileExtras, compileProperties_eq, Extras.schemas, map_singleton,
        singleton_append, mapM_cons]
      simp only [pure_bind, bind_assoc]
      rfl
    | _ =>
      rw [compileExtras, compileProperties_eq, Extras.schemas, map_nil, nil_append]
      simp only [pure_bind, bind_assoc]
      rfl
  | typeArray note members =>
    have optional {member : Node} (found : optionalMember? members = some member) :
        (do
          let parts ← (placedParts hint (.typeArray note members)).mapM (compilePart scope coerce)
          let fragment ← assemble scope coerce hint (.typeArray note members) parts
          return fragment.withDefault note.default : Compilation TypeFragment) = (do
          let inner ← compile scope coerce hint member
          return (combine (.optional inner.code) [inner]).withDefault note.default) := by
      simp only [placedParts, found, Option.elim_some, map_singleton, mapM_cons,
        mapM_nil, assemble, pure_bind, bind_assoc]
      rfl
    unfold compile
    split
    · rfl
    next left member present =>
      refine (optional ?_).symm
      cases member <;> first | rfl | exact absurd rfl (present _)
    next member right present =>
      refine (optional ?_).symm
      cases member <;> first | rfl | exact absurd rfl (present _)
    next both left right =>
      have absent : optionalMember? members = none := by
        unfold optionalMember?
        split
        · rfl
        · exact absurd rfl (left _ _)
        · exact absurd rfl (right _ _)
        · rfl
      rw [placedParts, absent, Option.elim_none, compileTypes_eq]
      refine congrArg _ (funext fun parts => ?_)
      rw [assemble.eq_def]
      dsimp only
      rw [absent]
      rcases parts with _ | ⟨part, _ | ⟨other, parts⟩⟩ <;> rfl
  | composition note mode members discriminator =>
    rw [compile, placedParts, compileMembers_eq]
    refine congrArg _ (funext fun parts => ?_)
    rcases parts with _ | ⟨part, _ | ⟨other, parts⟩⟩ <;> rfl
  | _ =>
    rw [compile]
    rfl

end Bindery.Code

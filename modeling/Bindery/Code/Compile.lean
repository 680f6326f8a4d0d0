import Bindery.Code.Primitive
import Bindery.Code.Shape
import Bindery.Naming.Words
import Bindery.Value.Shape

/-!
# Compiling schemas

A schema node becomes a type expression with the named types it mentions.  Inner
objects become models of their own, and a union with a discriminator becomes a
tagged union if each member has a value that tells it apart.
-/

namespace Bindery.Code

open Fragment Compilation

structure Scope where
  types : NamedNodes := []
  strict : Bool := false

def untaggable (index : Nat) (hint property : String) (repeated : Bool) : Diagnostic where
  code := .compilationAmbiguity
  message := "Member " ++ Text.decimal (index + 1) ++ " of '" ++ hint ++ "' " ++
    (if repeated then "repeats a tag value" else "has no literal value") ++
    " for discriminator '" ++ property ++ "'; compiled as an untagged union"
  location := some hint

def overlapping (first second : Nat) (hint : String) : Diagnostic where
  code := .compilationAmbiguity
  message := "anyOf members " ++ Text.decimal (first + 1) ++ " and " ++
    Text.decimal (second + 1) ++ " of '" ++ hint ++ "' overlap; the first matching member wins"
  location := some hint

def firstOverlap? (shapes : List Node) : Option (Nat × Nat) :=
  let indexed := shapes.zipIdx
  indexed.findSome? fun (a, i) =>
    ((indexed.drop (i + 1)).find? fun (b, _) => a.overlaps b).map fun (_, j) => (i, j)

abbrev Branches := List (Scalar × TypeFragment)

def isTaken (tag : Scalar) (branches : Branches) : Bool :=
  branches.any fun branch => branch.1.same tag

def mappedBranches (mapping : List (String × String)) (members : List (Node × TypeFragment)) :
    Branches :=
  let byTarget (target : String) : Option TypeFragment :=
    (members.reverse.find? fun member => member.1.target? == some target).map (·.2)
  mapping.map fun (tag, target) =>
    (.str tag, (byTarget target).getD (.deferred (.lazy target) target))

def addUnmapped (scope : Scope) (hint property : String) (mapped : List String) :
    List ((Node × TypeFragment) × Nat) → Branches → Compilation (Option Branches)
  | [], branches => return some branches
  | ((node, fragment), index) :: rest, branches =>
    match node.target? with
    | some target =>
      if mapped.contains target then addUnmapped scope hint property mapped rest branches
      else do
        let tag ← Run.ofExcept ((node.inferredTag scope.types property).getD .null).needKey
        let branches := if isTaken tag branches then branches else branches ++ [(tag, fragment)]
        addUnmapped scope hint property mapped rest branches
    | none =>
      match node.literalTag scope.types property with
      | none => do
        report (untaggable index hint property false)
        return none
      | some value => do
        let tag ← Run.ofExcept value.needKey
        if isTaken tag branches then
          report (untaggable index hint property true)
          return none
        else addUnmapped scope hint property mapped rest (branches ++ [(tag, fragment)])

def inferBranches (scope : Scope) (hint property : String) :
    List ((Node × TypeFragment) × Nat) → Branches → Compilation (Option Branches)
  | [], branches => return some branches
  | ((node, fragment), index) :: rest, branches =>
    match node.inferredTag scope.types property with
    | none => do
      report (untaggable index hint property false)
      return none
    | some value => do
      let tag ← Run.ofExcept value.needKey
      if isTaken tag branches then
        report (untaggable index hint property true)
        return none
      else inferBranches scope hint property rest (branches ++ [(tag, fragment)])

def taggedUnion? (scope : Scope) (hint : String) (discriminator : Discriminator)
    (members : List (Node × TypeFragment)) : Compilation (Option TypeFragment) := do
  let property := discriminator.property
  let branches? ← match discriminator.mapping with
    | some (branch :: mapping) =>
      let mapping := branch :: mapping
      addUnmapped scope hint property (mapping.map (·.2)) members.zipIdx
        (mappedBranches mapping members)
    | _ => inferBranches scope hint property members.zipIdx []
  return branches?.map fun branches =>
    combine (.tagged property (branches.map fun branch => (branch.1, branch.2.code)))
      (branches.map (·.2))

def unionOf (scope : Scope) (hint : String) (mode : Composition)
    (discriminator : Option Discriminator) (nodes : List Node) (members : List TypeFragment) :
    Compilation TypeFragment := do
  let codes := members.map (·.code)
  match mode with
  | .allOf => return combine (.allOf codes) members
  | mode =>
    let tagged? ← match discriminator with
      | none => pure none
      | some discriminator => taggedUnion? scope hint discriminator (nodes.zip members)
    match tagged? with
    | some tagged => return tagged
    | none =>
      match mode with
      | .anyOf =>
        match firstOverlap? (nodes.map (Node.shape scope.types)) with
        | some (first, second) => report (overlapping first second hint)
        | none => pure ()
        return combine (.union codes) members
      | _ => return combine (.oneOf codes) members

def referenceType (target : String) (forward : Bool) : TypeFragment :=
  if forward then .deferred (.lazy target) target else .direct (.named target) target

/-- Compiles a reference; a converted value needs the base type behind it. -/
def compileReference (scope : Scope) (coerce : Bool) (target : String) (forward : Bool) :
    Compilation TypeFragment :=
  if coerce then
    match scope.types.lookup target with
    | some (.primitive note kind format constraints) => do
      let type ← primitiveType true target kind format constraints
      return { code := type, default := note.default }
    | some (.enumeration note values extensible) =>
      return { code := enumerationType true values extensible, default := note.default }
    | _ => return referenceType target forward
  else return referenceType target forward

def refusesExtras (scope : Scope) (extras : Extras Node) (declared : Bool) : Bool :=
  match extras with
  | .closed => true
  | .open => scope.strict && !declared
  | .typed _ => false

def modelOf (hint : String) (properties : List (String × TypeFragment)) (required : List String)
    (closed : Bool) (extra : Option TypeFragment) : TypeFragment :=
  let presence (name : String) (fragment : TypeFragment) : Presence :=
    if required.contains name then .required
    else
      match fragment.default with
      | some value => .default value
      | none => .optional
  if properties.isEmpty && !closed then
    let value := extra.getD anything
    combine (.dict value.code) [value]
  else
    combine
      (.model hint (properties.map fun (name, fragment) =>
        (name, fragment.code, presence name fragment)) closed (extra.map (·.code)))
      (properties.map (·.2) ++ extra.toList)

def arrayOf (item : TypeFragment) (least most : Option Int) (unique : Bool) : TypeFragment :=
  let marks := lengthMarks least most ++ (if unique then [.unique] else [])
  combine ((TypeExpr.list item.code).mark marks) [item]

mutual

/-- Compiles a schema; `coerce` marks values that arrive as text, and `hint` names the models
inside. -/
def compile (scope : Scope) (coerce : Bool) (hint : String) : Node → Compilation TypeFragment
  | .primitive note kind format constraints => do
    let type ← primitiveType coerce hint kind format constraints
    return { code := type, default := note.default }
  | .null note => return { code := .none, default := note.default }
  | .any note => return { code := .any, default := note.default }
  | .enumeration note values extensible =>
    return { code := enumerationType coerce values extensible, default := note.default }
  | .reference note target forward => do
    let fragment ← compileReference scope coerce target forward
    return fragment.withDefault note.default
  | .array note items least most unique => do
    let item ← compileItems scope coerce (hint ++ "Item") items
    return (arrayOf item least most unique).withDefault note.default
  | .object note properties required extras declared _ => do
    let extra ← compileExtras scope coerce (hint ++ "Value") extras
    let properties ← compileProperties scope coerce hint properties
    return (modelOf hint properties required (refusesExtras scope extras declared)
      extra).withDefault note.default
  | .typeArray note members => do
    match members with
    | [.null _, .null _] =>
      return { code := .union [.none, .none], default := note.default }
    | [.null _, member] => do
      let inner ← compile scope coerce hint member
      return (combine (.optional inner.code) [inner]).withDefault note.default
    | [member, .null _] => do
      let inner ← compile scope coerce hint member
      return (combine (.optional inner.code) [inner]).withDefault note.default
    | members => do
      match ← compileTypes scope coerce hint members with
      | [fragment] => return fragment.withDefault note.default
      | fragments =>
        return (combine (.union (fragments.map (·.code))) fragments).withDefault
          note.default
  | .composition note mode members discriminator => do
    let label := if mode = .allOf then "Part" else "Option"
    match ← compileMembers scope coerce (hint ++ label) 1 members with
    | [] => return anything.withDefault note.default
    | [fragment] => return fragment.withDefault note.default
    | fragments => do
      let fragment ← unionOf scope hint mode discriminator members fragments
      return fragment.withDefault note.default

def compileItems (scope : Scope) (coerce : Bool) (hint : String) :
    Option Node → Compilation TypeFragment
  | none => return anything
  | some node => compile scope coerce hint node

def compileExtras (scope : Scope) (coerce : Bool) (hint : String) :
    Extras Node → Compilation (Option TypeFragment)
  | .closed => return none
  | .open => return none
  | .typed node => do return some (← compile scope coerce hint node)

def compileProperties (scope : Scope) (coerce : Bool) (hint : String) :
    List (String × Node) → Compilation (List (String × TypeFragment))
  | [] => return []
  | (name, node) :: rest => do
    let fragment ← compile scope coerce (hint ++ Naming.pascalCase name "Field") node
    return (name, fragment) :: (← compileProperties scope coerce hint rest)

def compileTypes (scope : Scope) (coerce : Bool) (hint : String) :
    List Node → Compilation (List TypeFragment)
  | [] => return []
  | node :: rest => do
    let fragment ← compile scope coerce hint node
    return fragment :: (← compileTypes scope coerce hint rest)

def compileMembers (scope : Scope) (coerce : Bool) (hint : String) (index : Nat) :
    List Node → Compilation (List TypeFragment)
  | [] => return []
  | node :: rest => do
    let fragment ← compile scope coerce (hint ++ Text.decimal index) node
    return fragment :: (← compileMembers scope coerce hint (index + 1) rest)

end

end Bindery.Code

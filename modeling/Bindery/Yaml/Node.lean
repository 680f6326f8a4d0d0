import Bindery.Yaml.Lexer
import Bindery.Yaml.Tag

/-!
# YAML nodes

The tokens of a text form a tree of scalars, sequences and mappings.  An alias
stands for the node with its anchor, and a merged mapping stands before the
entries of the mapping it is merged into.  A text holds at most one document.
-/

namespace Bindery.Yaml

inductive Node where
  | scalar (tag : Tag) (text : String)
  | sequence (tag : Tag) (items : List Node)
  | mapping (tag : Tag) (pairs : List (Node × Node))
deriving Repr

namespace Node

def tag : Node → Tag
  | .scalar tag _ => tag
  | .sequence tag _ => tag
  | .mapping tag _ => tag

def empty : Node := .scalar .null ""

def mergedPairs : Node → Except Trouble (List (Node × Node))
  | .mapping _ pairs => .ok pairs
  | _ => .error (.malformed "expected a mapping to merge")

/-- The entries of the value of a merge key; of several mappings the later ones come first. -/
def mergeValue : Node → Except Trouble (List (Node × Node))
  | .mapping _ pairs => .ok pairs
  | .sequence _ items => do return (← items.mapM mergedPairs).reverse.flatten
  | .scalar .. => .error (.malformed "expected a mapping to merge")

/-- The key of a default value is an ordinary text. -/
def plainKey : Node → Node
  | .scalar .default text => .scalar .str text
  | node => node

/-- A mapping whose merge keys are replaced by the entries they stand for. -/
def ofPairs (tag : Tag) (pairs : List (Node × Node)) : Except Trouble Node := do
  let isMerge (pair : Node × Node) : Bool := pair.1.tag = .merge
  let merged ← (pairs.filter isMerge).mapM fun pair => pair.2.mergeValue
  let own := (pairs.filter fun pair => !isMerge pair).map fun pair => (pair.1.plainKey, pair.2)
  return .mapping tag (merged.flatten ++ own)

end Node

/-- What is left of the tokens, the anchors so far, and the handles of tags. -/
structure Parser where
  tokens : List Token
  /-- The nodes with anchors; one that is being read has no node yet. -/
  anchors : List (String × Option Node) := []
  handles : List (String × String) := []

abbrev Parsing := StateT Parser (Except Trouble)

namespace Parsing

def commonHandles : List (String × String) := [("!", "!"), ("!!", Tag.base)]

def fail {α : Type} (reason : String) : Parsing α :=
  throw (.malformed reason)

def peek? : Parsing (Option Token) := do
  return (← get).tokens.head?

def advance : Parsing Unit :=
  modify fun parser => { parser with tokens := parser.tokens.drop 1 }

def accept (token : Token) : Parsing Bool := do
  if (← peek?) = some token then
    advance
    return true
  else return false

def isNext (tokens : List Token) : Parsing Bool := do
  return ((← peek?).map tokens.contains).getD false

def anchor? : Parsing (Option String) := do
  match ← peek? with
  | some (.anchor name) =>
    advance
    return some name
  | _ => return none

def tag? : Parsing (Option String) := do
  match ← peek? with
  | some (.tag none suffix) =>
    advance
    return some suffix
  | some (.tag (some handle) suffix) =>
    advance
    match (← get).handles.lookup handle with
    | some base => return some (base ++ suffix)
    | none => fail "a tag has an unknown handle"
  | _ => return none

def properties : Parsing (Option String × Option String) := do
  match ← anchor? with
  | some anchor => return (some anchor, ← tag?)
  | none =>
    match ← tag? with
    | some tag => return (← anchor?, some tag)
    | none => return (none, none)

def aliased (name : String) : Parsing Node := do
  match (← get).anchors.lookup name with
  | some (some node) => return node
  | _ => fail "an alias has no anchor"

def declare (anchor : Option String) : Parsing Unit := do
  match anchor with
  | none => return ()
  | some name =>
    if ((← get).anchors.lookup name).isSome then fail "an anchor stands twice"
    modify fun parser => { parser with anchors := (name, none) :: parser.anchors }

def define (anchor : Option String) (node : Node) : Parsing Node := do
  match anchor with
  | none => return node
  | some name =>
    modify fun parser => { parser with anchors := (name, some node) :: parser.anchors }
    return node

def scalarTag (tag : Option String) (text : String) (plain : Bool) : Tag :=
  match tag with
  | none => if plain then Tag.ofPlain text else .str
  | some "!" => Tag.ofPlain text
  | some uri => Tag.ofUri uri

def collectionTag (tag : Option String) (usual : Tag) : Tag :=
  match tag with
  | none => usual
  | some "!" => usual
  | some uri => Tag.ofUri uri

def emptyNode (anchor tag : Option String) : Parsing Node := do
  if anchor.isNone && tag.isNone then fail "expected a node"
  else define anchor (.scalar (scalarTag tag "" true) "")

mutual

/-- Reads a node; `inBlock` says whether block styles are allowed, and `indentless` whether the
entries of a sequence may stand at the column of their mapping. -/
def node (inBlock indentless : Bool) : (fuel : Nat) → Parsing Node
  | 0 => fail "the nodes are nested too deeply"
  | fuel + 1 => do
    match ← peek? with
    | some (.alias name) =>
      advance
      aliased name
    | _ =>
      let (anchor, tag) ← properties
      declare anchor
      match ← peek? with
      | some .blockEntry =>
        if indentless then
          define anchor (.sequence (collectionTag tag .sequence) (← indentlessItems fuel))
        else emptyNode anchor tag
      | some (.scalar text plain) =>
        advance
        define anchor (.scalar (scalarTag tag text plain) text)
      | some .flowSequenceStart =>
        advance
        define anchor (.sequence (collectionTag tag .sequence) (← flowItems true fuel))
      | some .flowMappingStart =>
        advance
        define anchor (← Node.ofPairs (collectionTag tag .mapping) (← flowPairs true fuel))
      | some .blockSequenceStart =>
        if inBlock then
          advance
          define anchor (.sequence (collectionTag tag .sequence) (← blockItems fuel))
        else emptyNode anchor tag
      | some .blockMappingStart =>
        if inBlock then
          advance
          define anchor (← Node.ofPairs (collectionTag tag .mapping) (← blockPairs fuel))
        else emptyNode anchor tag
      | _ => emptyNode anchor tag
termination_by fuel => fuel

def blockItems : (fuel : Nat) → Parsing (List Node)
  | 0 => fail "the nodes are nested too deeply"
  | fuel + 1 => do
    if ← accept .blockEntry then
      let item ← if ← isNext [.blockEntry, .blockEnd] then pure Node.empty
        else node true false fuel
      return item :: (← blockItems fuel)
    else if ← accept .blockEnd then return []
    else fail "expected the end of a block"
termination_by fuel => fuel

/-- Reads the entries of a sequence at the column of its mapping. -/
def indentlessItems : (fuel : Nat) → Parsing (List Node)
  | 0 => fail "the nodes are nested too deeply"
  | fuel + 1 => do
    if ← accept .blockEntry then
      let item ← if ← isNext [.blockEntry, .key, .value, .blockEnd] then pure Node.empty
        else node true false fuel
      return item :: (← indentlessItems fuel)
    else return []
termination_by fuel => fuel

def blockPairs : (fuel : Nat) → Parsing (List (Node × Node))
  | 0 => fail "the nodes are nested too deeply"
  | fuel + 1 => do
    if ← accept .key then
      let key ← if ← isNext [.key, .value, .blockEnd] then pure Node.empty
        else node true true fuel
      let value ← blockValue fuel
      return (key, value) :: (← blockPairs fuel)
    else if ← accept .blockEnd then return []
    else fail "expected the end of a block"
termination_by fuel => fuel

def blockValue : (fuel : Nat) → Parsing Node
  | 0 => fail "the nodes are nested too deeply"
  | fuel + 1 => do
    if ← accept .value then
      if ← isNext [.key, .value, .blockEnd] then return Node.empty
      else node true true fuel
    else return Node.empty
termination_by fuel => fuel

/-- Reads the value of an entry between brackets that end with a given token. -/
def flowValue (ending : Token) : (fuel : Nat) → Parsing Node
  | 0 => fail "the nodes are nested too deeply"
  | fuel + 1 => do
    if ← accept .value then
      if ← isNext [.flowEntry, ending] then return Node.empty else node false false fuel
    else return Node.empty
termination_by fuel => fuel

/-- Reads a key between brackets that end with a given token. -/
def flowKey (ending : Token) : (fuel : Nat) → Parsing Node
  | 0 => fail "the nodes are nested too deeply"
  | fuel + 1 => do
    if ← isNext [.value, .flowEntry, ending] then return Node.empty else node false false fuel
termination_by fuel => fuel

/-- Reads the entries of a sequence between brackets; an entry with a key is a mapping. -/
def flowItems (first : Bool) : (fuel : Nat) → Parsing (List Node)
  | 0 => fail "the nodes are nested too deeply"
  | fuel + 1 => do
    if ← accept .flowSequenceEnd then return []
    else
      if !first then
        if !(← accept .flowEntry) then fail "expected a comma or a closing bracket"
      if ← accept .flowSequenceEnd then return []
      else if ← accept .key then
        let key ← flowKey .flowSequenceEnd fuel
        let value ← flowValue .flowSequenceEnd fuel
        let item ← Node.ofPairs .mapping [(key, value)]
        return item :: (← flowItems false fuel)
      else
        let item ← node false false fuel
        return item :: (← flowItems false fuel)
termination_by fuel => fuel

def flowPairs (first : Bool) : (fuel : Nat) → Parsing (List (Node × Node))
  | 0 => fail "the nodes are nested too deeply"
  | fuel + 1 => do
    if ← accept .flowMappingEnd then return []
    else
      if !first then
        if !(← accept .flowEntry) then fail "expected a comma or a closing bracket"
      if ← accept .flowMappingEnd then return []
      else if ← accept .key then
        let key ← flowKey .flowMappingEnd fuel
        let value ← flowValue .flowMappingEnd fuel
        return (key, value) :: (← flowPairs false fuel)
      else
        let key ← node false false fuel
        return (key, Node.empty) :: (← flowPairs false fuel)
termination_by fuel => fuel

end

/-- Reads the directives of a document, given the version and the handles so far. -/
def directives : (fuel : Nat) → (hasVersion : Bool) → Parsing Unit
  | 0, _ => return ()
  | fuel + 1, hasVersion => do
    match ← peek? with
    | some (.directive (.version major _)) =>
      advance
      if hasVersion then fail "a version stands twice"
      if major ≠ 1 then fail "the version is not known"
      directives fuel true
    | some (.directive (.handle name uri)) =>
      advance
      if ((← get).handles.lookup name).isSome then fail "a handle stands twice"
      modify fun parser => { parser with handles := (name, uri) :: parser.handles }
      directives fuel hasVersion
    | some (.directive .other) =>
      advance
      directives fuel hasVersion
    | _ => return ()

def documentEnds : (fuel : Nat) → Parsing Unit
  | 0 => return ()
  | fuel + 1 => do if ← accept .documentEnd then documentEnds fuel

def atDirective : Parsing Bool := do
  match ← peek? with
  | some (.directive _) => return true
  | _ => return false

def markedContent (fuel : Nat) : Parsing Node := do
  if (← peek?).isNone || (← atDirective) || (← isNext [.documentStart, .documentEnd]) then
    return Node.empty
  else node true false fuel

def addCommonHandles : Parsing Unit :=
  modify fun parser => { parser with handles := parser.handles ++ commonHandles }

def markedDocument (fuel : Nat) : Parsing Node := do
  directives fuel false
  addCommonHandles
  if !(← accept .documentStart) then fail "expected the start of a document"
  markedContent fuel

def document? (fuel : Nat) : Parsing (Option Node) := do
  if (← peek?).isNone then return none
  let root ← if (← atDirective) || (← isNext [.documentStart]) then markedDocument fuel
    else do
      addCommonHandles
      node true false fuel
  documentEnds fuel
  if (← peek?).isSome then fail "expected a single document"
  return some root

end Parsing

def Node.ofText? (text : String) : Except Trouble (Option Node) := do
  let tokens ← tokenize text
  let (root, _) ← (Parsing.document? (4 * tokens.length + 8)).run { tokens }
  return root

end Bindery.Yaml

import Bindery.Dialect.Normal
import Bindery.Location.External
import Bindery.Resolution.Cache
import Bindery.Resolution.Registry
import Bindery.Schema.Reader

/-!
# Resolving references

A reference is resolved depth first: its target is registered as pending, read
with all references inside, and then done.  A reference to a pending target
closes a cycle and is a forward reference.  A failed target does not stop the run.
-/

namespace Bindery

/-- What a run resolves references in: the documents, the working directory and the root. -/
structure Sources where
  library : Library
  working : List String
  root : NormalDocument
  /-- References are never nested deeper, because each nested one is written somewhere in the
  documents and leads to a schema that was not met before. -/
  bound : Nat

def Sources.of (library : Library) (working : List String) (root : NormalDocument) : Sources where
  library := library
  working := working
  root := root
  bound := 2 * (root.tree.weight + library.weight) + 2

structure Findings where
  cache : Cache := {}
  entries : List Registration := []
  completion : List String := []
  diagnostics : List Diagnostic := []
deriving DecidableEq

def Findings.start (sources : Sources) : Findings where
  cache := ((({} : Cache).add sources.root.location sources.root.tree)).2

abbrev Resolving := Run Findings

namespace Resolving

def report (diagnostic : Diagnostic) : Resolving Unit :=
  modify fun findings => { findings with diagnostics := findings.diagnostics ++ [diagnostic] }

def onCache {α : Type} (step : Cache → Except Fault α × Cache) : Resolving α := do
  let (result, cache) := step (← get).cache
  modify fun findings => { findings with cache }
  Run.ofExcept result

def document (sources : Sources) (location : String) : Resolving Value :=
  onCache fun cache => cache.get sources.library location

def target (sources : Sources) (text : String) (reference : Reference) : Resolving Value := do
  let document ← document sources reference.location
  match Pointer.resolve text document reference.pointer with
  | .ok value => return value
  | .error cause => throw (.resolution cause)

/-- The dialect of the document at a location; one without a known version has that of the root. -/
def dialectOf (sources : Sources) (location : String) : Resolving Dialect := do
  if location = sources.root.location then return .v31
  let dialect ← Run.ofExcept (Dialect.ofDocument (← document sources location))
  return if dialect = .unknown then sources.root.dialect else dialect

/-- Wraps a bare reference, so that no named type is one. -/
def unalias : Node → Node
  | .reference note target forward =>
    .composition {} .allOf [.reference note target forward] none
  | node => node

def resolutionSkip (proposed place : String) (cause : ResolutionFault) : Diagnostic where
  code := .resolutionSkip
  severity := .error
  message := "Skipping '" ++ proposed ++ "': " ++ cause.message
  location := some place

def settle (key : String) (standing : Standing) : Resolving Unit :=
  modify fun findings =>
    { findings with entries := Registry.settle key standing findings.entries }

def register (entry : Registration) : Resolving Unit :=
  modify fun findings => { findings with entries := findings.entries ++ [entry] }

/-- A registered schema that is being read for the first time, with the reference that led to
it. -/
structure Opening where
  text : String
  reference : Reference
  proposed : String

def Opening.place (opening : Opening) (sources : Sources) : String :=
  opening.reference.shown sources.root.location

/-- What a reference leads to: a schema that is registered already, or one that is opened. -/
inductive Arrival where
  | known (target : Target)
  | opened (opening : Opening)

/-- Looks up what a reference in the document at `base` leads to, and registers it if it is new. -/
def arrive (sources : Sources) (text base : String) : Resolving Arrival := do
  let reference ← Run.ofExcept (Reference.ofText sources.working text base)
  match Registry.find? (← get).entries reference.key with
  | some entry => return .known { key := reference.key, forward := entry.standing.isPending }
  | none =>
    let proposed ← Run.ofExcept (Location.proposedName reference.location reference.pointer)
    register { key := reference.key, location := reference.location, proposed }
    return .opened { text, reference, proposed }

def openedSchema (sources : Sources) (opening : Opening) : Resolving Value := do
  let value ← target sources opening.text opening.reference
  let dialect ← dialectOf sources opening.reference.location
  return Dialect.convertSchema value dialect

def conclude (sources : Sources) (opening : Opening) (result : Except ResolutionFault Node) :
    Resolving Target := do
  let key := opening.reference.key
  match result with
  | .ok node =>
    settle key (.done (unalias node))
    modify fun findings => { findings with completion := findings.completion ++ [key] }
  | .error cause =>
    settle key (.failed cause.message)
    report (resolutionSkip opening.proposed (opening.place sources) cause)
  return { key, forward := false }

/-- Resolves a reference that stands in the document at `base`; the references in its target are
resolved by `inner`. -/
def visit (sources : Sources) (inner : String → String → Resolving Target) (text base : String) :
    Resolving Target := do
  match ← arrive sources text base with
  | .known target => return target
  | .opened opening =>
    let result ← Run.attempt do
      let schema ← openedSchema sources opening
      Schema.read
        { resolve := fun text => inner text opening.reference.location, report := report }
        schema (opening.place sources)
    conclude sources opening result

def reference (sources : Sources) : (text base : String) → Resolving Target :=
  Run.nest (visit sources) (fun text _ => throw (.resolution (.cycle text))) sources.bound

/-- The document a base stands for; the empty base is the root. -/
def baseOf (sources : Sources) (base : String) : String :=
  if base = "" then sources.root.location else base

def read (sources : Sources) (schema : Value) (base place : String) : Resolving Node :=
  Schema.read
    { resolve := fun text => reference sources text (baseOf sources base), report := report }
    schema place

/-- The most references that are followed one after the other. -/
def followLimit : Nat := 64

/-- Follows references from an object; `visited` holds the keys of those followed. -/
def followWithin (sources : Sources) :
    (fuel : Nat) → (visited : List String) → (object : Value) → (base : String) →
      Resolving (Value × String)
  | fuel, visited, object, base =>
    match object.get? "$ref" with
    | some (.scalar (.str text)) =>
      match fuel with
      | 0 => throw (.resolution (.cycle text))
      | fuel + 1 => do
        let reference ← Run.ofExcept (Reference.ofText sources.working text base)
        if visited.contains reference.key then throw (.resolution (.cycle text))
        let value ← target sources text reference
        followWithin sources fuel (reference.key :: visited) value reference.location
    | _ => return (object, base)

/-- Follows references from an object that stands in the document at `base`: the object reached
and the location of its document. -/
def follow (sources : Sources) (object : Value) (base : String := "") :
    Resolving (Value × String) :=
  followWithin sources followLimit [] object (baseOf sources base)

def schemaName : Value → Except Fault String
  | .str name => .ok name
  | .scalar (.bytes _) => .error (.shape .wrongKind)
  | .scalar (.date _) => .error (.shape .wrongKind)
  | .scalar (.dateTime _) => .error (.shape .wrongKind)
  | _ => .error (.shape .noMember)

/-- Resolves every schema of the components by `resolve`, in the order of the document. -/
def componentsBy {State : Type} (sources : Sources) (resolve : String → Run State Target) :
    Run State Unit := do
  let components ← Run.ofExcept sources.root.components.needEntries
  let names ← Run.ofExcept (Value.itemsOrNone (components.present? "schemas"))
  names.forM fun name => do
    let name ← Run.ofExcept (schemaName name)
    let _ ← resolve ("#/components/schemas/" ++ Pointer.escape name)

def components (sources : Sources) : Resolving Unit :=
  componentsBy sources fun text => reference sources text sources.root.location

/-- The locations that the documents at some locations refer to, without those seen before. -/
def wanted (sources : Sources) : List String → (seen : List String) → Resolving (List String)
  | [], _ => return []
  | location :: rest, seen => do
    if (← get).cache.contains location then
      let document ← document sources location
      let targets ← (Location.externalReferences document).mapM fun text => do
        return (← Run.ofExcept (Reference.ofText sources.working text location)).location
      let fresh := targets.eraseDups.filter fun target => !seen.contains target
      return fresh ++ (← wanted sources rest (seen ++ fresh))
    else wanted sources rest seen

/-- Loads the documents that those of the frontier refer to; `next` goes on from what was
loaded. -/
def prefetchRound (sources : Sources) (workers : Int)
    (next : (frontier seen : List String) → Resolving Unit) (frontier seen : List String) :
    Resolving Unit :=
  if frontier.isEmpty then return ()
  else do
    let locations ← wanted sources frontier seen
    let fetched ← onCache fun cache => cache.prefetch sources.library workers locations
    next fetched (seen ++ locations)

def workerCount : Int := 8

/-- The most rounds of loading: the first one, one for each document, and the last one, which has
nothing to do. -/
def roundBound (sources : Sources) : Nat :=
  sources.library.documents.length + 2

/-- Loads every document that the root refers to, directly or through others. -/
def prefetch (sources : Sources) : Resolving Unit :=
  Run.nest (prefetchRound sources workerCount) (fun _ _ => return ()) (roundBound sources)
    [sources.root.location] [sources.root.location]

def finish (sources : Sources) : Resolving Registry := do
  let findings ← get
  let (registry, diagnostics) :=
    Registry.finish findings.entries findings.completion sources.root.location
  diagnostics.forM report
  return registry

end Resolving

end Bindery

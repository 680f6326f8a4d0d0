import Bindery.Fault
import Bindery.Number.Total
import Bindery.Value.Basic

/-!
# Documents by location

A library holds the documents that can be loaded.  A cache loads each of them
at most once: what was loaded, and why a location could not be loaded, is kept
for the next request.  A null document counts as not loaded.
-/

namespace Bindery

/-- The documents that can be loaded, and why any other location cannot. -/
structure Library where
  documents : List (String × Except Fault Value)
  absent : String → DocumentFault := .notFound

namespace Library

def load (library : Library) (location : String) : Except Fault Value :=
  (library.documents.lookup location).getD (.error (.document (library.absent location)))

def weight (library : Library) : Nat :=
  total (library.documents.map fun document =>
    match document.2 with
    | .ok value => value.weight
    | .error _ => 0)

end Library

/-- The documents loaded so far, the failures, and the number of attempts. -/
structure Cache where
  documents : List (String × Value) := []
  failures : List (String × ResolutionFault) := []
  fetchCount : Nat := 0
deriving DecidableEq

namespace Cache

def contains (cache : Cache) (location : String) : Bool :=
  (cache.documents.lookup location).isSome

/-- Keeps a document unless one is kept for its location; returns the one that is kept. -/
def add (cache : Cache) (location : String) (document : Value) : Value × Cache :=
  match cache.documents.lookup location with
  | some kept => (kept, cache)
  | none => (document, { cache with documents := cache.documents ++ [(location, document)] })

/-- What is known about a location: the document, or why it cannot be loaded. -/
def known? (cache : Cache) (location : String) : Option (Except ResolutionFault Value) :=
  match (cache.documents.lookup location).filter (· ≠ .null) with
  | some document => some (.ok document)
  | none => (cache.failures.lookup location).map .error

def countAttempt (cache : Cache) : Cache :=
  { cache with fetchCount := cache.fetchCount + 1 }

/-- Keeps a failure unless one is kept for its location; returns the one that is kept. -/
def addFailure (cache : Cache) (location : String) (failure : ResolutionFault) :
    ResolutionFault × Cache :=
  match cache.failures.lookup location with
  | some kept => (kept, cache)
  | none => (failure, { cache with failures := cache.failures ++ [(location, failure)] })

/-- Keeps what an attempt to load a document came to: the document, or the reason why it cannot be
loaded. -/
def settle (cache : Cache) (location : String) :
    Except Fault Value → Except Fault Value × Cache
  | .ok document =>
    let (kept, cache) := cache.add location document
    (.ok kept, cache)
  | .error (.document cause) =>
    let (kept, cache) := cache.addFailure location (.unloadable location cause)
    (.error (.resolution kept), cache)
  | .error fault => (.error fault, cache)

def fetch (library : Library) (cache : Cache) (location : String) : Except Fault Value × Cache :=
  cache.countAttempt.settle location (library.load location)

def get (library : Library) (cache : Cache) (location : String) : Except Fault Value × Cache :=
  match cache.known? location with
  | some (.ok document) => (.ok document, cache)
  | some (.error failure) => (.error (.resolution failure), cache)
  | none => cache.fetch library location

/-- Loads documents one after the other; the locations that could be loaded, and the first fault
that no failure stands for. -/
def fetchAll (library : Library) (cache : Cache) : List String → Except Fault (List String) × Cache
  | [] => (.ok [], cache)
  | location :: rest =>
    let (result, cache) := cache.fetch library location
    let (others, cache) := fetchAll library cache rest
    match result, others with
    | .ok _, .ok others => (.ok (location :: others), cache)
    | .error (.resolution _), others => (others, cache)
    | .error fault, _ => (.error fault, cache)
    | _, .error fault => (.error fault, cache)

def pending (cache : Cache) (locations : List String) : List String :=
  locations.eraseDups.filter fun location =>
    !cache.contains location && (cache.failures.lookup location).isNone

/-- Loads those of some locations that were not tried before, with a number of workers; the
locations that could be loaded. -/
def prefetch (library : Library) (workers : Int) (cache : Cache) (locations : List String) :
    Except Fault (List String) × Cache :=
  let pending := cache.pending locations
  if pending.isEmpty then (.ok [], cache)
  else if workers ≤ 0 then (.error (.shape .badValue), cache)
  else cache.fetchAll library pending

end Cache

end Bindery

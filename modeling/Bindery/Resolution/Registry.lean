import Bindery.Diagnostic
import Bindery.Location.Basic
import Bindery.Schema.References

/-!
# The registry of schemas

Every schema that a reference leads to is registered once, under its absolute
location, and is pending, done or failed.  A schema that depends on a failed or
skipped one is skipped.
-/

namespace Bindery

inductive Standing where
  | pending
  | done (node : Node)
  | failed (message : String)
deriving DecidableEq

def Standing.text : Standing → String
  | .pending => "pending"
  | .done _ => "done"
  | .failed _ => "failed"

def Standing.isPending : Standing → Bool
  | .pending => true
  | _ => false

def Standing.isFailed : Standing → Bool
  | .failed _ => true
  | _ => false

def Standing.node? : Standing → Option Node
  | .done node => some node
  | _ => none

structure Registration where
  key : String
  location : String
  proposed : String
  standing : Standing := .pending
deriving DecidableEq

/-- The registered schemas in the order of discovery, those that are used in the order in which
they were finished, and those that are not used. -/
structure Registry where
  entries : List Registration := []
  completion : List String := []
  skipped : List String := []
deriving DecidableEq

namespace Registration

def place (entry : Registration) (root : String) : String :=
  let pointer := ((Text.cut '#' entry.key).2).getD ""
  Reference.shown { location := entry.location, pointer } root

def dependencies (entry : Registration) : List String :=
  (entry.standing.node?.map Node.targets).getD []

end Registration

namespace Registry

def find? (entries : List Registration) (key : String) : Option Registration :=
  entries.find? (·.key == key)

def get? (registry : Registry) (key : String) : Option Registration :=
  find? registry.entries key

def settle (key : String) (standing : Standing) (entries : List Registration) :
    List Registration :=
  entries.map fun entry => if entry.key = key then { entry with standing } else entry

def least? (texts : List String) : Option String :=
  (texts.mergeSort fun a b => a ≤ b).head?

def dependencySkip (entries : List Registration) (root : String) (entry : Registration)
    (missing : List String) : Diagnostic :=
  let culprits := missing.filterMap fun key => (find? entries key).map (·.proposed)
  { code := .dependencySkip
    severity := .error
    message := "Skipping '" ++ entry.proposed ++ "': depends on skipped type '" ++
      (least? culprits).getD "" ++ "'"
    location := some (entry.place root) }

/-- One pass over the finished schemas, which skips those that depend on skipped ones. -/
def skipPass (entries : List Registration) (root : String) :
    List Registration → (skipped : List String) → List String × List Diagnostic
  | [], skipped => (skipped, [])
  | entry :: rest, skipped =>
    let missing := entry.dependencies.filter skipped.contains
    if skipped.contains entry.key || missing.isEmpty then skipPass entries root rest skipped
    else
      let (skipped, diagnostics) := skipPass entries root rest (skipped ++ [entry.key])
      (skipped, dependencySkip entries root entry missing :: diagnostics)

/-- Repeats passes until one of them skips nothing; each of the others skips a schema, so one pass
for each schema is enough. -/
def skipDependents (entries : List Registration) (root : String) :
    (passes : Nat) → (skipped : List String) → List String × List Diagnostic
  | 0, skipped => (skipped, [])
  | passes + 1, skipped =>
    let (next, diagnostics) := skipPass entries root entries skipped
    if diagnostics.isEmpty then (next, [])
    else
      let (final, later) := skipDependents entries root passes next
      (final, diagnostics ++ later)

/-- The registry of a run, without what is skipped, and the diagnostics of what is skipped because
of others. -/
def finish (entries : List Registration) (completion : List String) (root : String) :
    Registry × List Diagnostic :=
  let failed := (entries.filter (·.standing.isFailed)).map (·.key)
  let (skipped, diagnostics) := skipDependents entries root entries.length failed
  ({ entries := entries.filter fun entry => !skipped.contains entry.key
     completion := completion.filter fun key => !skipped.contains key
     skipped }, diagnostics)

end Registry

end Bindery

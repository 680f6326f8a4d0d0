import Bindery.Proofs.Code.Records
import Bindery.Proofs.Schema.Keywords

/-!
# Compilation completes

Compiling a schema returns a fragment and at most adds diagnostics: patterns that
are malformed and members that cannot be told apart are reported.  Two things
stop it.  A pattern may be refused for another reason than its form, because a
count in it is too large or its flags conflict.  And the literal value that tells
a member of a union apart may be a list or a map, which cannot be a tag.
-/

namespace Bindery

/-- A step returns a value, and at most adds diagnostics. -/
def Compilation.Completes {α : Type} (step : Compilation α) : Prop :=
  ∀ diagnostics, ∃ value added, step.start diagnostics = (.ok value, diagnostics ++ added)

namespace Code

open Compilation

/-- Nothing in a schema itself stops compilation; `coerce` marks values that arrive as text. -/
def IsCompilable (scope : Scope) (coerce : Bool) (node : Node) : Prop :=
  Permits (fun _ => False) scope coerce node

end Code

end Bindery

import Bindery.Fault

/-!
# Computations with a state

A computation reads and changes a state, and it may stop with a fault.  The
state reached so far is kept when it stops, so what was noticed before a fault
can still be shown.
-/

namespace Bindery

abbrev Run (State : Type) := ExceptT Fault (StateM State)

namespace Run

def start {State α : Type} (computation : Run State α) (state : State) :
    Except Fault α × State :=
  StateT.run (ExceptT.run computation) state

def ofExcept {State α : Type} (result : Except Fault α) : Run State α :=
  ExceptT.mk (pure result)

/-- Runs a step and hands back a failed resolution; any other fault stops the computation. -/
def attempt {State α : Type} (step : Run State α) : Run State (Except ResolutionFault α) :=
  ExceptT.mk do
    match ← step.run with
    | .ok value => return .ok (.ok value)
    | .error (.resolution cause) => return .ok (.error cause)
    | .error fault => return .error fault

/-- A function that calls itself through `step`, at most `depth` calls deep; deeper calls are
answered by `last`. -/
def nest {First Second Result : Type}
    (step : (First → Second → Result) → First → Second → Result)
    (last : First → Second → Result) : (depth : Nat) → First → Second → Result
  | 0, first, second => last first second
  | depth + 1, first, second => step (nest step last depth) first second

end Run

end Bindery

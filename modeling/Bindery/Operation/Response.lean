import Bindery.Fault
import Bindery.Operation.Basic
import Bindery.Text.Digit

/-!
# The union of responses

The responses of an operation form a union with one member for each status and
media type: numbers first, then ranges such as `2XX`, then all others.
-/

namespace Bindery.Response

structure Rank where
  group : Nat
  number : Nat
deriving DecidableEq, Repr

def Rank.le (a b : Rank) : Bool :=
  a.group < b.group || (a.group == b.group && a.number ≤ b.number)

def range? (status : String) : Option Nat :=
  let isX (c : Char) : Bool := c == 'x' || c == 'X'
  match status.toList with
  | digit :: a :: b :: rest =>
    if '1' ≤ digit && digit ≤ '5' && isX a && isX b && (rest == [] || rest == ['\n']) then
      some (digit.toNat - 48)
    else none
  | _ => none

/-- The rank of a status; a status of digits that write no number is a fault. -/
def rank (status : String) : Except Fault Rank :=
  let chars := status.toList
  if !chars.isEmpty && chars.all Text.isDigit then
    match Text.digitsValue? chars with
    | some number => .ok ⟨0, number⟩
    | none => .error (.shape .badValue)
  else
    match range? status with
    | some digit => .ok ⟨1, digit⟩
    | none => .ok ⟨2, 0⟩

def members (response : Response) : List ResponseMember :=
  if response.content.isEmpty then [{ status := response.status, media := none }]
  else response.content.map fun media => { status := response.status, media := some media }

def union (responses : List Response) : Except Fault (List ResponseMember) := do
  let ranked ← responses.mapM fun response => do return (← rank response.status, response)
  let sorted := ranked.mergeSort fun a b => a.1.le b.1
  return sorted.flatMap fun entry => entry.2.members

end Bindery.Response

import Bindery.Number.Double

/-!
# Arithmetic of doubles

Sums and products are computed exactly and then rounded once.
-/

namespace Bindery.Double

def negate : Double → Double
  | .finite negative mantissa exponent => .finite (!negative) mantissa exponent
  | .infinity negative => .infinity (!negative)
  | .nan => .nan

def ofScaled (negative : Bool) (n : Nat) (power : Int) : Double :=
  let (numerator, denominator) := scale n 1 power
  ofFraction negative numerator denominator

def mul : Double → Double → Double
  | .finite n m e, .finite n' m' e' => ofScaled (n != n') (m * m') (e + e')
  | .infinity n, .infinity n' => .infinity (n != n')
  | .infinity n, .finite n' m _ => if m = 0 then .nan else .infinity (n != n')
  | .finite n m _, .infinity n' => if m = 0 then .nan else .infinity (n != n')
  | .nan, _ => .nan
  | _, .nan => .nan

/-- A signed multiple of a power of two, seen from a lower power. -/
def alignedTo (power : Int) (negative : Bool) (mantissa : Nat) (exponent : Int) : Int :=
  let n : Int := (mantissa * Nat.pow 2 (exponent - power).toNat : Nat)
  if negative then -n else n

def add : Double → Double → Double
  | .finite n m e, .finite n' m' e' =>
    let power := min e e'
    let sum := alignedTo power n m e + alignedTo power n' m' e'
    if sum = 0 then zero (n && n') else ofScaled (sum < 0) sum.natAbs power
  | .infinity n, .infinity n' => if n = n' then .infinity n else .nan
  | .infinity n, .finite .. => .infinity n
  | .finite .., .infinity n => .infinity n
  | .nan, _ => .nan
  | _, .nan => .nan

end Bindery.Double

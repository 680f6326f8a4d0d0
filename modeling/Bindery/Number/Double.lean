/-!
# Double-precision numbers

A finite double is a sign, a mantissa and a power of two.  All operations are exact
arithmetic on natural numbers followed by one rounding to the nearest double, ties
going to the even mantissa.
-/

namespace Bindery

inductive Double where
  | finite (negative : Bool) (mantissa : Nat) (exponent : Int)
  | infinity (negative : Bool)
  | nan
deriving DecidableEq, Repr

namespace Double

def precision : Nat := 53

def leastExponent : Int := -1074

def greatestExponent : Int := 971

/-- The doubles that arithmetic produces: the mantissa is as large as the format allows. -/
def IsCanonical : Double → Prop
  | .finite _ mantissa exponent =>
    mantissa < Nat.pow 2 precision ∧ leastExponent ≤ exponent ∧ exponent ≤ greatestExponent ∧
      (Nat.pow 2 (precision - 1) ≤ mantissa ∨ exponent = leastExponent)
  | .infinity _ => True
  | .nan => True

def zero (negative : Bool) : Double :=
  .finite negative 0 leastExponent

/-- The quotient rounded to the nearest natural number, a tie going to the even one. -/
def roundQuotient (numerator denominator : Nat) : Nat :=
  let quotient := numerator / denominator
  let remainder := numerator % denominator
  if 2 * remainder < denominator then quotient
  else if denominator < 2 * remainder then quotient + 1
  else if quotient % 2 = 0 then quotient
  else quotient + 1

/-- Multiplies a fraction by a power of two, on the side where it stays integral. -/
def scale (numerator denominator : Nat) (power : Int) : Nat × Nat :=
  if power < 0 then (numerator, denominator * Nat.pow 2 power.natAbs)
  else (numerator * Nat.pow 2 power.natAbs, denominator)

def ofFraction (negative : Bool) (numerator denominator : Nat) : Double :=
  if numerator = 0 then zero negative
  else
    -- the quotient of the two lengths is within one of the length of the quotient
    let guess : Int := (numerator.log2 : Int) - (denominator.log2 : Int) - (precision - 1)
    let (n, d) := scale numerator denominator (-guess)
    let fitted := if n / d < Nat.pow 2 (precision - 1) then guess - 1 else guess
    let exponent := max fitted leastExponent
    let (n, d) := scale numerator denominator (-exponent)
    let mantissa := roundQuotient n d
    let (mantissa, exponent) :=
      if mantissa = Nat.pow 2 precision then (Nat.pow 2 (precision - 1), exponent + 1)
      else (mantissa, exponent)
    if greatestExponent < exponent then .infinity negative else .finite negative mantissa exponent

/-- The double nearest to an integer, or nothing if the integer is beyond all doubles. -/
def ofInt? (n : Int) : Option Double :=
  match ofFraction (n < 0) n.natAbs 1 with
  | .infinity _ => none
  | double => some double

def ofDecimal (negative : Bool) (digits : Nat) (exponent : Int) : Double :=
  let length : Int := (Nat.toDigits 10 digits).length
  if digits = 0 then zero negative
  else if 310 < length + exponent then .infinity negative
  else if length + exponent < -330 then zero negative
  else if exponent < 0 then ofFraction negative digits (Nat.pow 10 exponent.natAbs)
  else ofFraction negative (digits * Nat.pow 10 exponent.natAbs) 1

def toInt? : Double → Option Int
  | .finite negative mantissa exponent =>
    let sign (n : Nat) : Int := if negative then -(n : Int) else n
    if 0 ≤ exponent then some (sign (mantissa * Nat.pow 2 exponent.natAbs))
    else
      let divisor := Nat.pow 2 exponent.natAbs
      if mantissa % divisor = 0 then some (sign (mantissa / divisor)) else none
  | _ => none

def isNonFinite : Double → Bool
  | .finite .. => false
  | _ => true

def isZero : Double → Bool
  | .finite _ mantissa _ => mantissa == 0
  | _ => false

/-- Numerical equality: the two zeros are equal, and not-a-number equals nothing. -/
def same : Double → Double → Bool
  | .finite n m e, .finite n' m' e' =>
    if m = 0 ∧ m' = 0 then true else n == n' && m == m' && e == e'
  | .infinity n, .infinity n' => n == n'
  | _, _ => false

end Double

end Bindery

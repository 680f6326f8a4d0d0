import Bindery.Number.Double
import Bindery.Text.Basic

/-!
# Decimal text of doubles

A double is written with the fewest decimal digits that read back as the same
double; of two such decimals the nearer one is taken.  A decimal is read as the
nearest double.
-/

namespace Bindery.Double

open Text

/-- The open or closed interval of reals that round to a positive double, in quarter units
of its last place: the ends, and whether they belong to it. -/
structure RoundingInterval where
  low : Nat
  value : Nat
  high : Nat
  unit : Int
  closed : Bool

/-- The reals that round to `mantissa * 2 ^ exponent`.  Below a power of two the gap to
the next smaller double is half as wide. -/
def roundingInterval (mantissa : Nat) (exponent : Int) : RoundingInterval where
  low :=
    if mantissa = Nat.pow 2 (precision - 1) ∧ leastExponent < exponent then 4 * mantissa - 1
    else 4 * mantissa - 2
  value := 4 * mantissa
  high := 4 * mantissa + 2
  unit := exponent - 2
  closed := mantissa % 2 = 0

/-- Compares `left * 10 ^ power` with `right * 2 ^ unit`. -/
def compareScaled (left : Nat) (power : Int) (right : Nat) (unit : Int) : Ordering :=
  let tens := Nat.pow 10 power.natAbs
  let twos := Nat.pow 2 unit.natAbs
  let l := left * (if power < 0 then 1 else tens) * (if unit < 0 then twos else 1)
  let r := right * (if power < 0 then tens else 1) * (if unit < 0 then 1 else twos)
  compare l r

/-- Whether `digits * 10 ^ power` rounds to the double of the interval. -/
def RoundingInterval.holds (interval : RoundingInterval) (digits : Nat) (power : Int) : Bool :=
  match compareScaled digits power interval.low interval.unit,
    compareScaled digits power interval.high interval.unit with
  | .lt, _ => false
  | _, .gt => false
  | .eq, _ => interval.closed
  | _, .eq => interval.closed
  | _, _ => true

/-- The quotient of `value * 2 ^ unit` by `10 ^ power`, rounded down. -/
def floorScaled (value : Nat) (unit power : Int) : Nat :=
  let tens := Nat.pow 10 power.natAbs
  let twos := Nat.pow 2 unit.natAbs
  (value * (if unit < 0 then 1 else twos) * (if power < 0 then tens else 1)) /
    ((if unit < 0 then twos else 1) * (if power < 0 then 1 else tens))

/-- The neighbours of the value on the grid of multiples of `10 ^ power` that read back,
the nearer one first. -/
def RoundingInterval.candidate? (interval : RoundingInterval) (power : Int) : Option Nat :=
  let below := floorScaled interval.value interval.unit power
  let nearerBelow :=
    -- twice the value against the midpoint of the two neighbours
    match compareScaled (2 * below + 1) power (2 * interval.value) interval.unit with
    | .lt => false
    | .gt => true
    | .eq => below % 2 = 0
  let order := if nearerBelow then [below, below + 1] else [below + 1, below]
  order.find? fun digits => digits != 0 && interval.holds digits power

/-- Searches grids with ever more digits for a decimal that reads back. -/
def RoundingInterval.search (interval : RoundingInterval) (top : Int) :
    (count digits : Nat) → Nat × Int
  | 0, _ => (0, 0)
  | count + 1, digits =>
    let power := top - digits
    match interval.candidate? power with
    | some candidate => (candidate, power)
    | none => interval.search top count (digits + 1)

/-- Removes the trailing zeros of a positive number and counts them into the power. -/
def stripZeros : (fuel digits : Nat) → (power : Int) → Nat × Int
  | 0, digits, power => (digits, power)
  | fuel + 1, digits, power =>
    if digits % 10 = 0 then stripZeros fuel (digits / 10) (power + 1) else (digits, power)

/-- The shortest decimal `digits * 10 ^ power` of a positive double. -/
def shortest (mantissa : Nat) (exponent : Int) : Nat × Int :=
  let interval := roundingInterval mantissa exponent
  -- every positive double is at least `10 ^ (-400)`
  let lead := floorScaled interval.value interval.unit (-400)
  let top : Int := (Nat.toDigits 10 lead).length - 400
  let (digits, power) := interval.search top 20 1
  stripZeros 20 digits power

/-- Lays out shortest digits: positional in the middle range, else with an exponent. -/
def layout (digits : List Char) (power : Int) : List Char :=
  let lead : Int := digits.length + power - 1
  if -4 ≤ lead ∧ lead < 16 then
    if 0 ≤ power then digits ++ List.replicate power.natAbs '0' ++ ['.', '0']
    else if 0 ≤ lead then
      digits.take (lead + 1).natAbs ++ '.' :: digits.drop (lead + 1).natAbs
    else '0' :: '.' :: (List.replicate (lead + 1).natAbs '0' ++ digits)
  else
    let point := match digits with
      | first :: second :: rest => first :: '.' :: second :: rest
      | short => short
    point ++ 'e' :: (if lead < 0 then '-' else '+') :: (padded 2 lead.natAbs).toList

def text : Double → String
  | .nan => "nan"
  | .infinity negative => if negative then "-inf" else "inf"
  | .finite negative mantissa exponent =>
    let unsigned :=
      if mantissa = 0 then ['0', '.', '0']
      else
        let (digits, power) := shortest mantissa exponent
        layout (Nat.toDigits 10 digits) power
    String.ofList (if negative then '-' :: unsigned else unsigned)

/-- Reads an exponent: an optional sign and at least one digit. -/
def readExponent? (chars : List Char) : Option Int :=
  let (negative, digits) := match chars with
    | '-' :: rest => (true, rest)
    | '+' :: rest => (false, rest)
    | rest => (false, rest)
  if digits.isEmpty || !digits.all Char.isDigit then none
  else
    let value : Int := decimalValue digits
    some (if negative then -value else value)

/-- Reads a decimal without a sign: digits with an optional point, at least one digit in
all, and an optional exponent. -/
def readDecimal? (negative : Bool) (chars : List Char) : Option Double :=
  let whole := chars.takeWhile Char.isDigit
  let rest := chars.dropWhile Char.isDigit
  let (fraction, rest) := match rest with
    | '.' :: rest => (rest.takeWhile Char.isDigit, rest.dropWhile Char.isDigit)
    | rest => ([], rest)
  if whole.isEmpty && fraction.isEmpty then none
  else
    let exponent? : Option Int := match rest with
      | [] => some 0
      | mark :: rest => if mark = 'e' ∨ mark = 'E' then readExponent? rest else none
    exponent?.map fun exponent =>
      ofDecimal negative (decimalValue (whole ++ fraction)) (exponent - fraction.length)

/-- Reads a number with an optional sign, or one of the names of the special values. -/
def read? (chars : List Char) : Option Double :=
  let (negative, unsigned) := match chars with
    | '-' :: rest => (true, rest)
    | '+' :: rest => (false, rest)
    | rest => (false, rest)
  let name := String.ofList (unsigned.map Char.toLower)
  if name = "inf" ∨ name = "infinity" then some (.infinity negative)
  else if name = "nan" then some .nan
  else readDecimal? negative unsigned

end Bindery.Double

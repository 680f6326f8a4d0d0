import Bindery.Text.Basic
import Bindery.Text.Blank

/-!
# Digits of all scripts

Unicode has several sets of ten decimal digits, each in a run of ascending code
points, and further digits such as superscripts that have no decimal value.
-/

namespace Bindery.Text

/-- The code points of the zeros of all sets of decimal digits. -/
def zeroDigits : List Nat :=
  [
    48, 1632, 1776, 1984, 2406, 2534, 2662, 2790, 2918, 3046, 3174, 3302,
    3430, 3558, 3664, 3792, 3872, 4160, 4240, 6112, 6160, 6470, 6608,
    6784, 6800, 6992, 7088, 7232, 7248, 42528, 43216, 43264, 43472, 43504,
    43600, 44016, 65296, 66720, 68912, 69734, 69872, 69942, 70096, 70384,
    70736, 70864, 71248, 71360, 71472, 71904, 72016, 72784, 73040, 73120,
    92768, 92864, 93008, 120782, 120792, 120802, 120812, 120822, 123200,
    123632, 125264, 130032
  ]

def decimalDigit? (c : Char) : Option Nat :=
  (zeroDigits.find? fun start => start ≤ c.toNat && c.toNat < start + 10).map (c.toNat - ·)

def otherDigitRanges : List (Nat × Nat) :=
  [
    (178,179),(185,185),(4969,4977),(6618,6618),(8304,8304),(8308,8313),(8320,8329),(9312,9320),
    (9332,9340),(9352,9360),(9450,9450),(9461,9469),(9471,9471),(10102,10110),(10112,10120),
    (10122,10130),(68160,68163),(69216,69224),(69714,69722),(127232,127242)
  ]

def isDigit (c : Char) : Bool :=
  (decimalDigit? c).isSome || inRanges otherDigitRanges c.toNat

/-- The number written by decimal digits of any script, if there is at least one digit. -/
def digitsValue? : List Char → Option Nat
  | [] => none
  | digits => digits.foldlM (fun value c => (decimalDigit? c).map (value * 10 + ·)) 0

/-- Reads digits in which single underscores may stand between two digits.  The flag says
whether a digit was just read. -/
def readDigits? : (afterDigit : Bool) → (value : Nat) → List Char → Option Nat
  | afterDigit, value, [] => if afterDigit then some value else none
  | afterDigit, value, c :: rest =>
    if c = '_' then (if afterDigit then readDigits? false value rest else none)
    else
      match decimalDigit? c with
      | some digit => readDigits? true (value * 10 + digit) rest
      | none => none

/-- Reads an integer: blanks around it are ignored, a sign is optional. -/
def readInteger? (text : String) : Option Int :=
  match (trim text).toList with
  | '-' :: rest => (readDigits? false 0 rest).map fun value => -(value : Int)
  | '+' :: rest => (readDigits? false 0 rest).map fun value => (value : Int)
  | rest => (readDigits? false 0 rest).map fun value => (value : Int)

end Bindery.Text

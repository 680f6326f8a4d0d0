/-!
# Pieces of text

Text is handled as lists of characters.  Each operation is a plain recursion on the
list, and has a form on `String` beside it.
-/

namespace Bindery.Text

open String

/-- The pieces between the separators; there is always one more piece than separators. -/
def splitChars (separator : Char) : List Char → List (List Char)
  | [] => [[]]
  | c :: rest =>
    if c = separator then [] :: splitChars separator rest
    else
      match splitChars separator rest with
      | [] => [[c]]
      | piece :: pieces => (c :: piece) :: pieces

def split (separator : Char) (text : String) : List String :=
  (splitChars separator text.toList).map ofList

/-- The characters before the first separator, and those after it if there is one. -/
def cutChars (separator : Char) : List Char → List Char × Option (List Char)
  | [] => ([], none)
  | c :: rest =>
    if c = separator then ([], some rest)
    else
      let (front, back) := cutChars separator rest
      (c :: front, back)

def cut (separator : Char) (text : String) : String × Option String :=
  let (front, back) := cutChars separator text.toList
  (ofList front, back.map ofList)

/-- What follows `front` in `text`, if `text` begins with `front`. -/
def afterFront? : (front text : List Char) → Option (List Char)
  | [], text => some text
  | _ :: _, [] => none
  | a :: front, b :: text => if a = b then afterFront? front text else none

def beginsWith (text front : String) : Bool :=
  (afterFront? front.toList text.toList).isSome

def endsWith (text back : String) : Bool :=
  (afterFront? back.toList.reverse text.toList.reverse).isSome

def after? (front text : String) : Option String :=
  (afterFront? front.toList text.toList).map ofList

def occursIn (part : List Char) : List Char → Bool
  | [] => part.isEmpty
  | c :: rest => (afterFront? part (c :: rest)).isSome || occursIn part rest

def hasChar (text : String) (c : Char) : Bool :=
  text.toList.contains c

def join (separator : String) : List String → String
  | [] => ""
  | [text] => text
  | text :: rest => text ++ separator ++ join separator rest

def dropEndWhile (member : Char → Bool) (text : List Char) : List Char :=
  (text.reverse.dropWhile member).reverse

/-- The ranges of code points of a set, from the lengths of the stretches of code points outside and
inside it, which take turns. -/
def stretches (start : Nat) : List Nat → List (Nat × Nat)
  | outside :: inside :: rest =>
    (start + outside, start + outside + inside - 1) :: stretches (start + outside + inside) rest
  | _ => []

/-- Whether a character lies in one of the ascending, disjoint ranges of code points. -/
def inRanges : List (Nat × Nat) → Nat → Bool
  | [], _ => false
  | (low, high) :: rest, code =>
    if code < low then false else if code ≤ high then true else inRanges rest code

def hexValue? (c : Char) : Option Nat :=
  if '0' ≤ c ∧ c ≤ '9' then some (c.toNat - '0'.toNat)
  else if 'a' ≤ c ∧ c ≤ 'f' then some (c.toNat - 'a'.toNat + 10)
  else if 'A' ≤ c ∧ c ≤ 'F' then some (c.toNat - 'A'.toNat + 10)
  else none

/-- The lower-case hexadecimal digit of a value below sixteen. -/
def hexDigit (value : Nat) : Char :=
  if value < 10 then Char.ofNat ('0'.toNat + value) else Char.ofNat ('a'.toNat + value - 10)

/-- The last `width` hexadecimal digits of a number, most significant first. -/
def hexDigits : (width value : Nat) → List Char
  | 0, _ => []
  | width + 1, value => hexDigits width (value / 16) ++ [hexDigit (value % 16)]

def decimalValue (digits : List Char) : Nat :=
  digits.foldl (fun value c => value * 10 + (c.toNat - '0'.toNat)) 0

def decimal (n : Nat) : String :=
  ofList (Nat.toDigits 10 n)

def integer (n : Int) : String :=
  if n < 0 then "-" ++ decimal n.natAbs else decimal n.natAbs

/-- A number written with at least `width` digits, filled with zeros. -/
def padded (width n : Nat) : String :=
  let digits := Nat.toDigits 10 n
  ofList (List.replicate (width - digits.length) '0' ++ digits)

end Bindery.Text

import Bindery.Text.Basic

/-!
# UTF-8

Bytes are read as UTF-8 in two ways.  The strict reading fails on any byte that
is not part of a well-formed sequence; the lenient reading puts the replacement
character for each longest beginning of a sequence that cannot be completed.
-/

namespace Bindery.Text

def utf8Bytes (text : String) : List UInt8 :=
  text.toUTF8.toList

/-- What the first byte of a sequence says: how many bytes follow, the range of the
second byte, and the bits it contributes. -/
def utf8Lead (byte : Nat) : Option (Nat × Nat × Nat × Nat) :=
  if byte < 0x80 then some (0, 0, 0, byte)
  else if byte < 0xC2 then none
  else if byte < 0xE0 then some (1, 0x80, 0xBF, byte - 0xC0)
  else if byte = 0xE0 then some (2, 0xA0, 0xBF, 0)
  else if byte = 0xED then some (2, 0x80, 0x9F, 0xD)
  else if byte < 0xF0 then some (2, 0x80, 0xBF, byte - 0xE0)
  else if byte = 0xF0 then some (3, 0x90, 0xBF, 0)
  else if byte < 0xF4 then some (3, 0x80, 0xBF, byte - 0xF0)
  else if byte = 0xF4 then some (3, 0x80, 0x8F, 4)
  else none

/-- Reads the bytes that continue a sequence.  The result is the code point, or nothing if
the sequence breaks off, and the bytes that were not used. -/
def utf8Rest : (count low high bits : Nat) → List UInt8 → Option Nat × List UInt8
  | 0, _, _, bits, bytes => (some bits, bytes)
  | _ + 1, _, _, _, [] => (none, [])
  | count + 1, low, high, bits, byte :: bytes =>
    if low ≤ byte.toNat ∧ byte.toNat ≤ high then
      utf8Rest count 0x80 0xBF (bits * 64 + (byte.toNat - 0x80)) bytes
    else (none, byte :: bytes)

theorem utf8Rest_length_le (count low high bits : Nat) (bytes : List UInt8) :
    (utf8Rest count low high bits bytes).2.length ≤ bytes.length := by
  induction count generalizing low high bits bytes with
  | zero => simp [utf8Rest]
  | succ count ih =>
    cases bytes with
    | nil => simp [utf8Rest]
    | cons byte bytes =>
      simp only [utf8Rest]
      split
      · exact Nat.le_succ_of_le (ih _ _ _ _)
      · simp

/-- The characters of the bytes; nothing stands for a sequence that cannot be completed. -/
def utf8Chars : List UInt8 → List (Option Char)
  | [] => []
  | byte :: bytes =>
    match utf8Lead byte.toNat with
    | none => none :: utf8Chars bytes
    | some (count, low, high, bits) =>
      let result := utf8Rest count low high bits bytes
      result.1.map Char.ofNat :: utf8Chars result.2
termination_by bytes => bytes.length
decreasing_by
  · exact Nat.lt_succ_self _
  · exact Nat.lt_succ_of_le (utf8Rest_length_le _ _ _ _ _)

def ofUtf8? (bytes : List UInt8) : Option String :=
  ((utf8Chars bytes).mapM id).map String.ofList

def ofUtf8Lenient (bytes : List UInt8) : String :=
  String.ofList ((utf8Chars bytes).map (·.getD (Char.ofNat 0xFFFD)))

end Bindery.Text

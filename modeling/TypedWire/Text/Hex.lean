import TypedWire.Bytes
import TypedWire.Text.Quoted

/-!
# Hexadecimal text

Two digits a byte, the high one first. Writing uses lower case, reading takes both cases.

- `Hex.encode`, `Hex.decode`: bytes to digits and back.
- `Hex.Error`: why a text does not read; the count of digits is looked at first, then the digits
  from the left.
-/

namespace TypedWire.Hex

/-- Why a text is not hexadecimal. -/
inductive Error where
  /-- Its bytes do not pair up. -/
  | oddLength
  /-- The byte at a position is no digit. -/
  | badDigit (byte : UInt8) (position : Nat)
  deriving DecidableEq

/-- The wording of a failure. A byte that is no digit is shown as the character of its number. -/
def Error.message : Error → String
  | .oddLength => "Odd number of digits"
  | .badDigit byte position =>
    "Invalid character " ++ Quoted.char (Char.ofNat byte.toNat) ++ " at position " ++
      toString position

/-- The two digits of a byte. -/
def digits (b : UInt8) : List Char :=
  [Nat.digitChar (b.toNat / 16), Nat.digitChar (b.toNat % 16)]

/-- The lower-case digits of a byte string. -/
def encode (bs : Bytes) : String :=
  String.ofList (bs.flatMap digits)

/-- The value of the digit that a byte is in ASCII. -/
def digit? (b : UInt8) : Option Nat :=
  let n := b.toNat
  if 48 ≤ n ∧ n ≤ 57 then some (n - 48)
  else if 97 ≤ n ∧ n ≤ 102 then some (n - 87)
  else if 65 ≤ n ∧ n ≤ 70 then some (n - 55)
  else none

/-- The value of the digit at a position. -/
def digitAt (position : Nat) (b : UInt8) : Except Error Nat :=
  match digit? b with
  | some d => .ok d
  | none => .error (.badDigit b position)

/-- Reads pairs of digits, the first of them at `position`. -/
def pairs : Nat → Bytes → Except Error Bytes
  | position, high :: low :: rest => do
    let h ← digitAt position high
    let l ← digitAt (position + 1) low
    let bytes ← pairs (position + 2) rest
    return UInt8.ofNat (h * 16 + l) :: bytes
  | _, _ => .ok []

/-- Reads hexadecimal text given as its bytes. -/
def decodeBytes (text : Bytes) : Except Error Bytes :=
  if text.length % 2 = 0 then pairs 0 text else .error .oddLength

/-- Reads hexadecimal text. -/
def decode (text : String) : Except Error Bytes :=
  decodeBytes text.toUTF8.data.toList

end TypedWire.Hex

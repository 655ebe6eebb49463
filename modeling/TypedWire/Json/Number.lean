import TypedWire.Binary.Arithmetic
import TypedWire.Json.Basic
import TypedWire.Text.Scan

/-!
# Numbers in JSON

An integer that 64 bits hold is read as it is. Any other number is read as a double, in two steps:
the digits that a word of 64 bits has room for are taken as an integer, and the integer is scaled by
a power of ten. Each step rounds, and the digits behind those of the word do not count. So the
result is close to the number, but it need not be the double nearest to it: among the numbers just
below the largest double there are some that are taken to be beyond it. What has few enough digits
for the word and a small enough power of ten is read as the nearest double.

- `JsonNumber.accumulate`: the digits that go into a word.
- `JsonNumber.ofInteger`, `JsonNumber.ofScaled?`: an integer, and one that is scaled.
- `JsonNumber.parse?`: reads a number.
-/

namespace TypedWire.JsonNumber

open Scan (digitsValue)

/-- Digits, at least one, and what follows them. -/
def digits? (cs : List Char) : Option (List Char × List Char) :=
  let digits := cs.takeWhile Char.isDigit
  if digits.isEmpty then none else some (digits, cs.dropWhile Char.isDigit)

/-- The fraction after a point, if there is one, and what follows it. -/
def fraction? : List Char → Option (List Char × List Char)
  | '.' :: cs => digits? cs
  | cs => some ([], cs)

/-- The exponent at the end of a number, if there is one. -/
def exponent? : List Char → Option (Option Int)
  | [] => some none
  | e :: cs =>
    if e = 'e' ∨ e = 'E' then
      let (sign, cs) : Int × List Char := match cs with
        | '+' :: cs => (1, cs)
        | '-' :: cs => (-1, cs)
        | cs => (1, cs)
      match digits? cs with
      | some (digits, []) => some (some (sign * digitsValue digits))
      | _ => none
    else none

/-- Appends digits to a number while 64 bits hold it; gives the number and the digits that are
left. -/
def accumulate (n : Nat) : List Char → Nat × List Char
  | [] => (n, [])
  | c :: cs =>
    let next := n * 10 + digitsValue [c]
    if next < UInt64.size then accumulate next cs else (n, c :: cs)

/-- An integer is kept as one where 64 bits hold it; minus zero and other negative ones are
floats. -/
def ofInteger (negative : Bool) (n : Nat) : JsonNumber :=
  if !negative then .int n
  else if 0 < n ∧ (int64? (-n)).isSome then .int (-n)
  else .float (UInt64.ofNat (Binary.double.withSign true (Binary.double.nearest n 1)))

/-- An integer times a power of ten, as a double, unless that is beyond the largest finite one. -/
def ofScaled? (negative : Bool) (n : Nat) (exponent : Int) : Option JsonNumber := do
  let unscaled := Binary.double.nearest n 1
  let magnitude ←
    if exponent < 0 then some (Binary.scaleDown unscaled (-exponent).toNat)
    else Binary.scaleUp? unscaled exponent.toNat
  return .float (UInt64.ofNat (Binary.double.withSign negative magnitude))

/-- Reads a number: an integer part without leading zeros, a fraction and an exponent. -/
def parse? (cs : List Char) : Option JsonNumber := do
  let (negative, cs) := match cs with
    | '-' :: cs => (true, cs)
    | cs => (false, cs)
  let (whole, cs) ← digits? cs
  if whole.head? = some '0' ∧ whole.length ≠ 1 then none
  let (fraction, cs) ← fraction? cs
  let exponent ← exponent? cs
  let (n, dropped) := accumulate 0 whole
  if dropped.isEmpty ∧ fraction.isEmpty ∧ exponent.isNone then return ofInteger negative n
  else
    -- a digit that is dropped still counts as a place if it stands before the point
    let (n, unread) := accumulate n fraction
    let places : Int := (fraction.length - unread.length : Nat)
    ofScaled? negative n (exponent.getD 0 + dropped.length - places)

/-- The largest double, written with its seventeen digits, is read as itself; one more in the last
of them is beyond all doubles. -/
example : (parse? "1.7976931348623157e308".toList).isSome ∧
    (parse? "1.7976931348623158e308".toList) = none := by
  decide +kernel

end TypedWire.JsonNumber

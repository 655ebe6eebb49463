import TypedWire.Binary.Format

/-!
# The shortest decimal of a float

A float stands for the interval of numbers that round to it. Its shortest decimal is the one with
the fewest digits in that interval, and of those the nearest to the float itself, a tie going to the
even digit. On a decimal grid that has a point in the interval, one of the float's two neighbours on
the grid is such a point, so only those two are looked at.

- `Decimal`: a number as decimal digits and a power of ten.
- `Format.interval`: the interval of a float.
- `Format.shortest`: the shortest decimal of a float.
-/

namespace TypedWire.Binary

/-- The number `digits * 10 ^ exponent`. -/
structure Decimal where
  digits : Nat
  exponent : Int
  deriving DecidableEq

/-- The numbers between `lower / den` and `upper / den`, around `centre / den`. -/
structure Interval where
  lower : Nat
  centre : Nat
  upper : Nat
  den : Nat
  /-- Whether the two ends belong to the interval. -/
  closed : Bool

/-- The count of decimal digits of a number. -/
def digitCount (n : Nat) : Nat :=
  (Nat.toDigits 10 n).length

/-- The `e` for which `10 ^ e ≤ num / den < 10 ^ (e + 1)`. -/
def decimalExponent (num den : Nat) : Int :=
  if den ≤ num then (digitCount (num / den) : Int) - 1
  else -(digitCount ((den - 1) / num) : Int)

namespace Interval

/-- Whether `num / den` lies in the interval, for `den` times some `scale`. -/
def holds (i : Interval) (num scale : Nat) : Bool :=
  if i.closed then i.lower * scale ≤ num && num ≤ i.upper * scale
  else i.lower * scale < num && num < i.upper * scale

/-- The point of the grid of multiples of `10 ^ exponent` that lies in the interval and nearest to
its centre, if one of the centre's two neighbours does. -/
def onGrid? (i : Interval) (exponent : Int) : Option Decimal :=
  let step := i.den * Nat.pow 10 exponent.toNat
  let scale := Nat.pow 10 (-exponent).toNat
  let below := i.centre * scale / step
  let above := below + 1
  let nearest := roundHalfEven (i.centre * scale) step
  let other := if nearest = below then above else below
  if i.holds (nearest * step) scale then some ⟨nearest, exponent⟩
  else if i.holds (other * step) scale then some ⟨other, exponent⟩
  else none

end Interval

/-- Seventeen digits always tell two doubles apart. -/
def maxDigits : Nat := 17

/-- The numbers that round to `significand * 2 ^ exponent`. The step below a power of two is half
the step above it. -/
def Format.interval (f : Format) (significand : Nat) (exponent : Int) : Interval :=
  let quarter := exponent - 2
  let narrow := significand = 1 <<< f.fractionBits ∧ f.minExponent < exponent
  { lower := (4 * significand - if narrow then 1 else 2) <<< quarter.toNat
    centre := (4 * significand) <<< quarter.toNat
    upper := (4 * significand + 2) <<< quarter.toNat
    den := 1 <<< (-quarter).toNat
    closed := significand % 2 == 0 }

/-- The shortest decimal of `significand * 2 ^ exponent`, which is not zero. -/
def Format.shortest (f : Format) (significand : Nat) (exponent : Int) : Decimal :=
  let i := f.interval significand exponent
  let leading := decimalExponent i.centre i.den
  let grids := (List.range maxDigits).map fun n : Nat => leading - (n : Int)
  (grids.findSome? i.onGrid?).getD ⟨0, 0⟩

end TypedWire.Binary

import TypedWire.Binary.Format

/-!
# Products and quotients of floats

A float is given by its pattern without the sign, and is finite. A product or a quotient is rounded
to the nearest float, so that two operations in a row round twice.

- `Format.fraction`: a float as a fraction.
- `Format.mul`, `Format.div`: the nearest float to a product, or to a quotient.
- `Format.powerOfTen`: the nearest float to a power of ten.
- `scaleUp?`, `scaleDown`: a double times a power of ten, and divided by one.
-/

namespace TypedWire.Binary

namespace Format

/-- The numerator and the denominator of a float. -/
def fraction (f : Format) (magnitude : Nat) : Nat × Nat :=
  match f.unpack magnitude with
  | .finite _ significand exponent =>
    (significand <<< exponent.toNat, 1 <<< (-exponent).toNat)
  | .nan | .infinite _ => (0, 1)

/-- The float nearest to the product of two. -/
def mul (f : Format) (a b : Nat) : Nat :=
  let (num, den) := f.fraction a
  let (num', den') := f.fraction b
  f.nearest (num * num') (den * den')

/-- The float nearest to the quotient of two. -/
def div (f : Format) (a b : Nat) : Nat :=
  let (num, den) := f.fraction a
  let (num', den') := f.fraction b
  f.nearest (num * den') (den * num')

/-- The float nearest to a power of ten. -/
def powerOfTen (f : Format) (exponent : Nat) : Nat :=
  f.nearest (Nat.pow 10 exponent) 1

end Format

/-- The greatest power of ten that a double is near to. -/
def maxPowerOfTen : Nat := 308

/-- A double times a power of ten, unless that is beyond the largest finite one. -/
def scaleUp? (magnitude exponent : Nat) : Option Nat :=
  if maxPowerOfTen < exponent then if magnitude = 0 then some 0 else none
  else
    let scaled := double.mul magnitude (double.powerOfTen exponent)
    if scaled = double.infinity then none else some scaled

/-- A double divided by a power of ten, in as many steps as the greatest power makes necessary. -/
def scaleDown (magnitude exponent : Nat) : Nat :=
  if magnitude = 0 then 0
  else if exponent ≤ maxPowerOfTen then double.div magnitude (double.powerOfTen exponent)
  else scaleDown (double.div magnitude (double.powerOfTen maxPowerOfTen)) (exponent - maxPowerOfTen)
termination_by exponent
decreasing_by
  unfold maxPowerOfTen at *
  omega

end TypedWire.Binary

/-!
# Binary floating-point formats

A float is kept as the bits of its interchange format, so that no bit of it is lost.

- `Binary.Format`: an interchange format, by the sizes of its fields; `single` and `double`.
- `Binary.Datum`: what a bit pattern denotes.
- `Format.unpack`: the datum of a bit pattern.
- `Format.nearest num den`: the bits of the float nearest to `num / den`, a tie going to the even
  significand and a value beyond the largest finite float to infinity.
- `roundHalfEven`: a quotient rounded to the nearest integer, a tie going to the even one.
-/

namespace TypedWire.Binary

/-- An interchange format: a sign bit, then `exponentBits`, then `fractionBits`. -/
structure Format where
  exponentBits : Nat
  fractionBits : Nat

/-- The format of 32 bits. -/
def single : Format := ⟨8, 23⟩

/-- The format of 64 bits. -/
def double : Format := ⟨11, 52⟩

/-- What a bit pattern denotes. -/
inductive Datum where
  | nan
  | infinite (negative : Bool)
  /-- `significand * 2 ^ exponent`, with a sign that zero has too. -/
  | finite (negative : Bool) (significand : Nat) (exponent : Int)
  deriving DecidableEq

/-- The integer nearest to `num / den`; of two, the even one. -/
def roundHalfEven (num den : Nat) : Nat :=
  let quotient := num / den
  let twice := 2 * (num % den)
  if twice < den then quotient
  else if den < twice then quotient + 1
  else quotient + quotient % 2

namespace Format

/-- The exponent of the last place of the smallest floats. -/
def minExponent (f : Format) : Int :=
  2 - (1 <<< (f.exponentBits - 1) : Nat) - f.fractionBits

/-- The pattern of infinity, which is the count of finite patterns without a sign. -/
def infinity (f : Format) : Nat :=
  (1 <<< f.exponentBits - 1) <<< f.fractionBits

/-- The pattern of what is no number. -/
def noNumber (f : Format) : Nat :=
  f.infinity + 1 <<< (f.fractionBits - 1)

/-- The sign bit. -/
def signBit (f : Format) : Nat :=
  1 <<< (f.exponentBits + f.fractionBits)

/-- What a bit pattern denotes. -/
def unpack (f : Format) (bits : Nat) : Datum :=
  let negative := bits / f.signBit % 2 == 1
  let magnitude := bits % f.signBit
  let fraction := magnitude % 1 <<< f.fractionBits
  let biased := magnitude >>> f.fractionBits
  if f.infinity < magnitude then .nan
  else if magnitude = f.infinity then .infinite negative
  else if biased = 0 then .finite negative fraction f.minExponent
  else .finite negative (1 <<< f.fractionBits + fraction) (f.minExponent + biased - 1)

/-- The pattern with the given sign. -/
def withSign (f : Format) (negative : Bool) (magnitude : Nat) : Nat :=
  if negative then f.signBit + magnitude else magnitude

/-- The significand that `num / den` rounds to when the last place is `2 ^ exponent`. -/
def significandAt (num den : Nat) (exponent : Int) : Nat :=
  roundHalfEven (num <<< (-exponent).toNat) (den <<< exponent.toNat)

/-- Whether `num / den` is at least `2 ^ width` units of `2 ^ exponent`. -/
def exceeds (num den width : Nat) (exponent : Int) : Bool :=
  den <<< (exponent.toNat + width) ≤ num <<< (-exponent).toNat

/-- The pattern, without a sign, of the float nearest to `num / den`.

The last place is the smallest for which the quotient has no more digits than a significand. A
significand that rounds up to the next power of two carries into the exponent, which is why the
pattern is a sum. -/
def nearest (f : Format) (num den : Nat) : Nat :=
  if num = 0 then 0
  else
    let width := f.fractionBits + 1
    let guess : Int := (num.log2 : Int) - den.log2 - width
    let exponent := max f.minExponent (if exceeds num den width guess then guess + 1 else guess)
    let pattern :=
      (exponent - f.minExponent).toNat <<< f.fractionBits + significandAt num den exponent
    min pattern f.infinity

/-- The float of format `target` nearest to a float of format `f`. -/
def convert (f target : Format) (bits : Nat) : Nat :=
  match f.unpack bits with
  | .nan => target.noNumber
  | .infinite negative => target.withSign negative target.infinity
  | .finite negative significand exponent =>
    target.withSign negative
      (target.nearest (significand <<< exponent.toNat) (1 <<< (-exponent).toNat))

end Format

/-- The double nearest to an integer. -/
def ofInt (n : Int) : UInt64 :=
  UInt64.ofNat (double.withSign (n < 0) (double.nearest n.natAbs 1))

/-- Beyond this power of ten, up or down, every decimal is infinite or zero as a double. -/
def decimalLimit : Nat := 400

/-- The double nearest to `significand * 10 ^ exponent`, unless that is beyond the largest finite
one. -/
def ofDecimal? (negative : Bool) (significand : Nat) (exponent : Int) : Option UInt64 :=
  let leading := exponent + (Nat.toDigits 10 significand).length
  let magnitude :=
    if significand = 0 ∨ leading < -decimalLimit then 0
    else if decimalLimit < leading then double.infinity
    else double.nearest (significand * Nat.pow 10 exponent.toNat) (Nat.pow 10 (-exponent).toNat)
  if magnitude = double.infinity then none
  else some (UInt64.ofNat (double.withSign negative magnitude))

/-- The single nearest to a double. -/
def toSingle (bits : UInt64) : UInt32 :=
  UInt32.ofNat (double.convert single bits.toNat)

/-- The double equal to a single. -/
def ofSingle (bits : UInt32) : UInt64 :=
  UInt64.ofNat (single.convert double bits.toNat)

end TypedWire.Binary

import Reactor.Decimal.Binary

/-!
# The double nearest to a number

Conversion of an exact positive quotient, and of a decimal number, to the nearest double. The
doubles between two powers of two are multiples of one unit. The quotient is divided by the unit of
its range, rounded once to a whole number of units with ties to even, and the bits of the double
are read off that number: a step of one unit is a step of one in the bits, also across the border
to the next range, where the unit doubles.
-/

namespace Reactor.Decimal

def infinityBits : Nat :=
  0x7FF0000000000000

/-- The largest `k` with `2 ^ k` not above `numerator / denominator`, for positive numbers. -/
def leadingBit (numerator denominator : Nat) : Int :=
  let guess : Int := (numerator.log2 : Int) - denominator.log2
  if denominator * Nat.pow 2 guess.toNat ≤ numerator * Nat.pow 2 (-guess).toNat then guess
  else guess - 1

/-- The bits of the double nearest to a positive quotient. They are those of the infinity or above
if the quotient is beyond the range of doubles. -/
def nearestBits (numerator denominator : Nat) : Nat :=
  let unit := max (leadingBit numerator denominator - 52) (-1074)
  let units := roundDiv (numerator * Nat.pow 2 (-unit).toNat) (denominator * Nat.pow 2 unit.toNat)
  (unit + 1074).toNat * 0x10000000000000 + units

/-- The double nearest to a quotient, which may be infinite. -/
def nearest (numerator denominator : Nat) : Float :=
  if numerator = 0 then 0
  else Float.ofBits (UInt64.ofNat (min (nearestBits numerator denominator) infinityBits))

/-- The double nearest to `significand * 10 ^ exponent`, which may be infinite. Numbers whose first
digit is far beyond the range of doubles are not computed in full. -/
def ofDecimal (significand : Nat) (exponent : Int) : Float :=
  let magnitude := exponent + (toString significand).length
  if significand = 0 ∨ magnitude < -400 then 0
  else if 400 < magnitude then Float.ofBits (UInt64.ofNat infinityBits)
  else nearest (significand * Nat.pow 10 exponent.toNat) (Nat.pow 10 (-exponent).toNat)

/-- The double nearest to `significand * 2 ^ exponent`, which may be infinite. -/
def ofBinary (significand : Nat) (exponent : Int) : Float :=
  let magnitude := exponent + significand.log2
  if significand = 0 ∨ magnitude < -1100 then 0
  else if 1100 < magnitude then Float.ofBits (UInt64.ofNat infinityBits)
  else nearest (significand * Nat.pow 2 exponent.toNat) (Nat.pow 2 (-exponent).toNat)

end Reactor.Decimal

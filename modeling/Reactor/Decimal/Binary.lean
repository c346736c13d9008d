/-!
# Finite binary numbers as exact quantities

A finite double is `significand * 2 ^ exponent`. Decimal notation is found by comparing such a
number with points `c * 10 ^ k` of a decimal grid. Both sides of a comparison are multiplied by the
same positive factor, which makes them natural numbers, so every comparison is exact.
-/

namespace Reactor.Decimal

/-- The magnitude of a finite double: `significand * 2 ^ exponent`. -/
structure Binary where
  significand : Nat
  exponent : Int
  /-- Whether the next smaller double is half as far away as the next larger one. -/
  closerBelow : Bool
  deriving Repr

namespace Binary

/-- The magnitude of the double with the given bits, which must not be those of an infinity or of
a value that is not a number. -/
def ofBits (bits : UInt64) : Binary :=
  let fraction : Nat := bits.toNat % 0x10000000000000
  let biased : Nat := bits.toNat / 0x10000000000000 % 0x800
  if biased = 0 then
    ⟨fraction, -1074, false⟩
  else
    ⟨0x10000000000000 + fraction, (biased : Int) - 1075, fraction = 0 && biased ≠ 1⟩

/-- `quarters` quarter units of the last binary place, brought to the scale of the grid
`10 ^ k`. -/
def scaled (b : Binary) (k : Int) (quarters : Nat) : Nat :=
  quarters * Nat.pow 2 (b.exponent - 2).toNat * Nat.pow 10 (-k).toNat

/-- The point `c * 10 ^ k`, brought to the same scale. -/
def gridPoint (b : Binary) (k : Int) (c : Nat) : Nat :=
  c * Nat.pow 10 k.toNat * Nat.pow 2 (2 - b.exponent).toNat

/-- The number itself, brought to the scale of the grid `10 ^ k`. -/
def value (b : Binary) (k : Int) : Nat :=
  b.scaled k (4 * b.significand)

/-- The largest `c` with `c * 10 ^ k` not above the number. -/
def floor (b : Binary) (k : Int) : Nat :=
  b.value k / b.gridPoint k 1

/-- A decimal exponent that is not below that of the number's first digit. -/
def exponentBound (b : Binary) : Int :=
  ((b.significand.log2 : Int) + 1 + b.exponent) * 30103 / 100000 + 1

/-- The least of at most `steps` exponents, counted down from `k`, at which the grid has a positive
point not above the number: the decimal exponent of its first digit. -/
def leadingExponent (b : Binary) : Nat → Int → Int
  | 0, k => k
  | steps + 1, k => if b.floor k = 0 then leadingExponent b steps (k - 1) else k

end Binary

/-- The nearest natural number to a quotient; a tie goes to the even neighbour. -/
def roundDiv (numerator denominator : Nat) : Nat :=
  let quotient := numerator / denominator
  let doubled := 2 * (numerator % denominator)
  if doubled < denominator then quotient
  else if denominator < doubled then quotient + 1
  else if quotient % 2 = 0 then quotient
  else quotient + 1

end Reactor.Decimal

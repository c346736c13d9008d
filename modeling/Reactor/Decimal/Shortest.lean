import Reactor.Decimal.Binary

/-!
# Shortest decimal digits

The decimal notation with the fewest digits that reads back as a given finite double, and among
those the one nearest to it. The reals that read back as the double form an interval around it,
whose ends belong to it exactly when the significand is even. Grids `10 ^ k` are tried from coarse
to fine: if any point of a grid lies in the interval, so does one of the two neighbours of the
number on that grid, so the first grid with such a neighbour gives the fewest digits.
-/

namespace Reactor.Decimal

/-- A decimal number `digits * 10 ^ exponent`. -/
structure Digits where
  digits : Nat
  exponent : Int
  deriving DecidableEq, Repr

namespace Binary

/-- Whether the grid point `c * 10 ^ k` reads back as the number. -/
def readsBack (b : Binary) (k : Int) (c : Nat) : Bool :=
  let low := b.scaled k (4 * b.significand - if b.closerBelow then 1 else 2)
  let high := b.scaled k (4 * b.significand + 2)
  let point := b.gridPoint k c
  if b.significand % 2 = 0 then low ≤ point && point ≤ high
  else low < point && point < high

/-- The neighbour of the number on the grid `10 ^ k` that reads back as it, if there is one: the
nearer of two, and of two equally near ones the even one. -/
def neighbour? (b : Binary) (k : Int) : Option Nat :=
  let below := b.floor k
  let above := below + 1
  match b.readsBack k below, b.readsBack k above with
  | true, true => some (roundDiv (b.value k) (b.gridPoint k 1))
  | true, false => some below
  | false, true => some above
  | false, false => none

/-- The first hit on the grids `10 ^ k`, `10 ^ (k - 1)`, and so on, `steps` of them. -/
def firstHit (b : Binary) : Nat → Int → Digits
  | 0, k => ⟨b.floor k, k⟩
  | steps + 1, k =>
    match b.neighbour? k with
    | some c => ⟨c, k⟩
    | none => firstHit b steps (k - 1)

/-- The shortest decimal that reads back as a number other than zero. Seventeen digits always
suffice, and the first grids may be too coarse to have any point near the number. -/
def shortest (b : Binary) : Digits :=
  b.firstHit 24 (b.exponentBound + 1)

end Binary

/-- `d` with the trailing zeros of its digits moved into the exponent, at most `steps` of them. -/
def Digits.strip (d : Digits) : Nat → Digits
  | 0 => d
  | steps + 1 =>
    if d.digits ≠ 0 ∧ d.digits % 10 = 0 then strip ⟨d.digits / 10, d.exponent + 1⟩ steps else d

namespace Binary

/-- A number other than zero rounded to `count` significant digits. -/
def rounded (b : Binary) (count : Nat) : Digits :=
  let k := b.leadingExponent 8 (b.exponentBound + 1) - count + 1
  let digits := roundDiv (b.value k) (b.gridPoint k 1)
  if digits = Nat.pow 10 count then ⟨Nat.pow 10 (count - 1), k + 1⟩ else ⟨digits, k⟩

/-- A number other than zero rounded to `count` significant digits, trailing zeros removed. -/
def significant (b : Binary) (count : Nat) : Digits :=
  (b.rounded count).strip count

/-- The number rounded to `places` decimal places, as a count of units of the last place. -/
def fixed (b : Binary) (places : Nat) : Nat :=
  roundDiv (b.value (-places)) (b.gridPoint (-places) 1)

end Binary

end Reactor.Decimal

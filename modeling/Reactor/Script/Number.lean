import Reactor.Decimal.Layout
import Reactor.Script.Numeral

/-!
# Arithmetic of scripts

Operations on two integers wrap around at 64 bits, and operations that involve a float are done on
floats, except that division and powers always are. Floor division and remainder go to the floor.
Comparisons of an integer with a float are exact. What is not a number keeps its sign through an
operation, and a new one is negative.
-/

namespace Reactor.Script.Number

def toFloat : Number → Float
  | int n => n.toFloat
  | float x => x
  | notANumber _ => 0.0 / 0.0

/-- The number as a float, where what is not a number stays as it is. -/
def asFloat : Number → Number
  | int n => float n.toFloat
  | a => a

def ofFloat (x : Float) : Number :=
  if x.isNaN then notANumber true else float x

def signedBound : Float :=
  9223372036854775808.0

def exactInt? (x : Float) : Option Int64 :=
  if -signedBound ≤ x ∧ x < signedBound ∧ x.floor == x then some x.toInt64 else none

def toInt? : Number → Option Int64
  | int n => some n
  | float x => exactInt? x
  | notANumber _ => none

/-- The decimal notation: fourteen significant digits, and a fraction to tell a float from an
integer. -/
def layout : Decimal.Layout where
  isPositional exponent := -4 ≤ exponent && exponent < 14
  wholeSuffix := ".0"
  exponentWidth := 2
  notANumber := "nan"
  infinity := "inf"

def text : Number → String
  | int n => toString n.toInt
  | float x => layout.float (·.significant 14) x
  | notANumber negative => (if negative then "-" else "") ++ layout.notANumber

/-! ## Floats -/

/-- The positive remainder of two magnitudes, exactly. The divisor is not zero. -/
def magnitudeRemainder (a b : Decimal.Binary) : Float :=
  let exponent := min a.exponent b.exponent
  let scale (x : Decimal.Binary) : Nat := x.significand * Nat.pow 2 (x.exponent - exponent).toNat
  Decimal.ofBinary (scale a % scale b) exponent

/-- The remainder of a truncated division, which has the sign of `a`. -/
def truncatedRemainder (a b : Float) : Float :=
  if a.isNaN ∨ b.isNaN ∨ a.isInf ∨ b == 0 then 0.0 / 0.0
  else if b.isInf then a
  else
    let r := magnitudeRemainder (.ofBits a.toBits) (.ofBits b.toBits)
    if a.toBits.toNat / 0x8000000000000000 = 1 then -r else r

/-- The remainder of a floor division, which has the sign of `b`. -/
def floorRemainder (a b : Float) : Float :=
  let r := truncatedRemainder a b
  if (0 < r ∧ b < 0) ∨ (r < 0 ∧ 0 < b) then r + b else r

/-! ## Operations -/

/-- An operation on floats. What is not a number passes through it, the first operand before the
second. -/
def onFloats (f : Float → Float → Float) : Number → Number → Number
  | notANumber negative, _ => notANumber negative
  | _, notANumber negative => notANumber negative
  | a, b => ofFloat (f a.toFloat b.toFloat)

/-- An operation that is done on integers if both numbers are integers. -/
def both (f : Int64 → Int64 → Int64) (g : Float → Float → Float) : Number → Number → Number
  | int a, int b => int (f a b)
  | a, b => onFloats g a b

def add : Number → Number → Number :=
  both (· + ·) (· + ·)

def sub : Number → Number → Number :=
  both (· - ·) (· - ·)

def mul : Number → Number → Number :=
  both (· * ·) (· * ·)

def quotient : Number → Number → Number :=
  onFloats (· / ·)

/-- Division to the floor, which fails for two integers of which the second one is zero. -/
def floorDiv? : Number → Number → Option Number
  | int a, int b => if b = 0 then none else some (int (Int64.ofInt (a.toInt.fdiv b.toInt)))
  | a, b => some (onFloats (fun x y ↦ (x / y).floor) a b)

/-- The remainder of `floorDiv?`. -/
def mod? : Number → Number → Option Number
  | int a, int b => if b = 0 then none else some (int (Int64.ofInt (a.toInt.fmod b.toInt)))
  | a, b => some (onFloats floorRemainder a b)

/-- The remainder of a division toward zero, which fails for two integers of which the second one
is zero. -/
def truncatedMod? : Number → Number → Option Number
  | int a, int b => if b = 0 then none else some (int (Int64.ofInt (a.toInt.tmod b.toInt)))
  | a, b => some (onFloats truncatedRemainder a b)

/-- A power, as a float. The power zero and every power of one are one, even of what is not a
number. -/
def power (a b : Number) : Number :=
  if b.toFloat == 2 then onFloats (fun x _ ↦ x * x) a a
  else if b.toFloat == 0 ∨ a.toFloat == 1 then float 1
  else onFloats Float.pow a b

def negate : Number → Number
  | int n => int (-n)
  | float x => float (-x)
  | notANumber negative => notANumber !negative

def abs : Number → Number
  | int n => int (if n < 0 then -n else n)
  | float x => float x.abs
  | notANumber _ => notANumber false

def sqrt : Number → Number
  | notANumber negative => notANumber negative
  | a => ofFloat a.toFloat.sqrt

/-- A float rounded to an integer by `round`, which stays a float if it is out of the range of
integers. -/
def rounded (round : Float → Float) : Number → Number
  | float x =>
    match exactInt? (round x) with
    | some n => int n
    | none => float (round x)
  | a => a

def floor : Number → Number :=
  rounded Float.floor

def ceil : Number → Number :=
  rounded Float.ceil

/-- The bits of `a` moved to the left by `b`, or to the right if `b` is negative. Bits that leave
the word are lost. -/
def shiftLeft (a b : Int64) : Int64 :=
  let bits : Nat := a.toUInt64.toNat
  let shifted : Nat :=
    if b.toInt ≤ -64 ∨ 64 ≤ b.toInt then 0
    else if b < 0 then bits / Nat.pow 2 b.toInt.natAbs
    else bits * Nat.pow 2 b.toInt.natAbs
  Int64.ofInt shifted

/-! ## Comparison -/

def eq : Number → Number → Bool
  | int a, int b => a = b
  | float a, float b => a == b
  | int a, float b => exactInt? b = some a
  | float a, int b => exactInt? a = some b
  | _, _ => false

def intLtFloat (a : Int64) (b : Float) : Bool :=
  signedBound ≤ b || (-signedBound < b && a < b.ceil.toInt64)

def floatLtInt (a : Float) (b : Int64) : Bool :=
  a < -signedBound || (a < signedBound && a.floor.toInt64 < b)

def lt : Number → Number → Bool
  | int a, int b => a < b
  | float a, float b => a < b
  | int a, float b => intLtFloat a b
  | float a, int b => floatLtInt a b
  | _, _ => false

def le (a b : Number) : Bool :=
  a.lt b || a.eq b

end Reactor.Script.Number

import Reactor.Json.Basic
import Reactor.Json.Fault

/-!
# Number literals

The grammar of JSON number literals, and the numbers they denote. A literal without fraction and
exponent is exact while it fits 64 bits. Every other literal is a double, computed from at most
nineteen or twenty leading digits and one power of ten: the digits that fit an unsigned 64-bit
number are converted first, and the result is then multiplied or divided by the power. Two
roundings can leave it one step away from the nearest double.
-/

namespace Reactor.Json

structure Literal where
  negative : Bool
  whole : Nat
  /-- The digits after the point, if there is a point. -/
  fraction : Option (List Nat)
  /-- The exponent, if one is written. -/
  exponent : Option Int
  deriving DecidableEq, Repr

def maxUnsigned : Nat :=
  0xFFFFFFFFFFFFFFFF

def digitValue (c : Char) : Nat :=
  c.toNat - '0'.toNat

def decimal (digits : List Char) : Nat :=
  digits.foldl (fun n c ↦ 10 * n + digitValue c) 0

/-- A literal at the front of a text. -/
structure LiteralReading where
  literal : Literal
  /-- How many characters the literal takes. -/
  length : Nat
  /-- What is left of the text once the number is known to be out of range, if it is. -/
  rangeEnd : List Char

namespace Literal

/-- What is left of the digits of an exponent once its value leaves 31 bits. -/
def exponentEnd (value : Nat) : List Char → List Char
  | [] => []
  | c :: rest =>
    if c.isDigit then
      let value := 10 * value + digitValue c
      if 0x7FFFFFFF < value then rest else exponentEnd value rest
    else c :: rest

/-- Completes a literal by the exponent at the front of a text, if there is one. `length` characters
of the literal stand before it. -/
def readExponent (negative : Bool) (whole : Nat) (fraction : Option (List Nat)) (length : Nat)
    (text : List Char) : Except Stop LiteralReading :=
  match text with
  | [] => .ok ⟨⟨negative, whole, fraction, none⟩, length, []⟩
  | mark :: rest =>
    if mark = 'e' ∨ mark = 'E' then
      let (isNegative, signLength, digits) : Bool × Nat × List Char :=
        match rest with
        | '-' :: digits => (true, 1, digits)
        | '+' :: digits => (false, 1, digits)
        | digits => (false, 0, digits)
      let exponent := digits.takeWhile Char.isDigit
      if digits.isEmpty then .error ⟨.eofValue, [], 0⟩
      else if exponent.isEmpty then .error ⟨.invalidNumber, digits, 1⟩
      else
        let magnitude : Int := decimal exponent
        .ok ⟨⟨negative, whole, fraction, some (if isNegative then -magnitude else magnitude)⟩,
          length + 1 + signLength + exponent.length, exponentEnd 0 digits⟩
    else .ok ⟨⟨negative, whole, fraction, none⟩, length, text⟩

/-- Reads the literal at the front of a text. No zero may lead a longer whole part, and a point
needs digits on both of its sides. -/
def read (text : List Char) : Except Stop LiteralReading :=
  let (negative, signLength, unsigned) : Bool × Nat × List Char :=
    match text with
    | '-' :: rest => (true, 1, rest)
    | _ => (false, 0, text)
  let whole := unsigned.takeWhile Char.isDigit
  match unsigned with
  | [] => .error ⟨.eofValue, [], 0⟩
  | first :: others =>
    if whole.isEmpty then .error ⟨.invalidNumber, unsigned, 1⟩
    else if first = '0' ∧ whole.length ≠ 1 then .error ⟨.invalidNumber, others, 1⟩
    else
      let length := signLength + whole.length
      match unsigned.dropWhile Char.isDigit with
      | '.' :: rest =>
        let digits := rest.takeWhile Char.isDigit
        if rest.isEmpty then .error ⟨.eofValue, [], 0⟩
        else if digits.isEmpty then .error ⟨.invalidNumber, rest, 1⟩
        else
          readExponent negative (decimal whole) (some (digits.map digitValue))
            (length + 1 + digits.length) (rest.dropWhile Char.isDigit)
      | rest => readExponent negative (decimal whole) none length rest

end Literal

/-- A power of ten from `10 ^ 0` to `10 ^ 308`, as the double nearest to it. -/
def powerOfTen (n : Nat) : Float :=
  Float.ofScientific 1 false n

/-- Division by `10 ^ n`, in steps that stay within the range of doubles. -/
def scaleDown (x : Float) (n : Nat) : Float :=
  if n ≤ 308 then x / powerOfTen n
  else if x == 0.0 then x
  else scaleDown (x / powerOfTen 308) (n - 308)
termination_by n

/-- `significand * 10 ^ exponent`, unless it is beyond the largest double. -/
def scale? (significand : Nat) (exponent : Int) : Option Float :=
  let x := significand.toUInt64.toFloat
  if exponent < 0 then some (scaleDown x exponent.natAbs)
  else if exponent ≤ 308 then
    let scaled := x * powerOfTen exponent.natAbs
    if scaled.isInf then none else some scaled
  else if x == 0.0 then some x
  else none

/-- The leading digits of `n` that fit 64 bits, and the number of digits left off, given that at
most `steps` have to be. -/
def truncate : Nat → Nat → Nat × Nat
  | 0, n => (n, 0)
  | steps + 1, n =>
    if n ≤ maxUnsigned then (n, 0)
    else
      let (kept, dropped) := truncate steps (n / 10)
      (kept, dropped + 1)

/-- The significand continued by digits of the fraction while it fits 64 bits, and the number of
digits taken. -/
def absorbFraction (significand : Nat) : List Nat → Nat × Nat
  | [] => (significand, 0)
  | digit :: digits =>
    let next := 10 * significand + digit
    if next ≤ maxUnsigned then
      let (result, taken) := absorbFraction next digits
      (result, taken + 1)
    else (significand, 0)

namespace Literal

/-- The double that a literal denotes, unless it is out of range. -/
def float? (l : Literal) : Option Float :=
  let (significand, dropped) := truncate (toString l.whole).length l.whole
  let (significand, taken) := absorbFraction significand (l.fraction.getD [])
  let magnitude := scale? significand ((dropped : Int) - taken + l.exponent.getD 0)
  magnitude.map fun x ↦ if l.negative then -x else x

/-- The number that a literal denotes. A negative zero is a double, and so is every integer below
the signed or above the unsigned 64-bit range. -/
def number? (l : Literal) : Option Number :=
  if l.fraction.isNone ∧ l.exponent.isNone then
    if l.negative then
      if 1 ≤ l.whole ∧ l.whole ≤ 0x8000000000000000 then some (.integer (-l.whole))
      else l.float?.map .float
    else
      if l.whole ≤ maxUnsigned then some (.integer l.whole)
      else l.float?.map .float
  else l.float?.map .float

end Literal

/-- The number that a literal at the front of a text denotes, or where its range is left. -/
def LiteralReading.number (reading : LiteralReading) : Except Stop Number :=
  match reading.literal.number? with
  | some n => .ok n
  | none => .error ⟨.numberOutOfRange, reading.rangeEnd, 0⟩

end Reactor.Json

import Reactor.Decimal.Nearest
import Reactor.Text.Hex

/-!
# Numbers of a script

A number is a 64-bit integer or a double. Which one a numeral denotes shows in its spelling: a
decimal numeral without point and exponent is an integer if it fits, a hexadecimal one is an
integer modulo `2 ^ 64`, and all others are floats.
-/

namespace Reactor.Script

inductive Number where
  | int (n : Int64)
  /-- A float, finite or infinite. -/
  | float (x : Float)
  /-- The result of an operation without a result, which is a float with a sign all the same. -/
  | notANumber (negative : Bool)

namespace Numeral

def digits (base : Nat) (cs : List Char) : Nat :=
  cs.foldl (fun n c ↦ base * n + (Text.hexValue? c).getD 0) 0

def isHexDigit (c : Char) : Bool :=
  (Text.hexValue? c).isSome

/-- The exponent at the end of a numeral, none if nothing is there. -/
def exponent? (mark : Char → Bool) : List Char → Option (Option Int)
  | [] => some none
  | c :: rest =>
    if mark c then
      let (negative, cs) :=
        match rest with
        | '-' :: cs => (true, cs)
        | '+' :: cs => (false, cs)
        | cs => (false, cs)
      if cs ≠ [] ∧ cs.all Char.isDigit then
        some (some (if negative then -(digits 10 cs : Int) else digits 10 cs))
      else none
    else none

/-- The parts of a numeral: the digits before the point, those after it if there is a point, and
the exponent. -/
def parts? (isDigit mark : Char → Bool) (cs : List Char) :
    Option (List Char × Option (List Char) × Option Int) :=
  let whole := cs.takeWhile isDigit
  let rest := cs.dropWhile isDigit
  let (fraction, rest) :=
    match rest with
    | '.' :: rest => (some (rest.takeWhile isDigit), rest.dropWhile isDigit)
    | rest => (none, rest)
  if whole = [] ∧ fraction.getD [] = [] then none
  else (exponent? mark rest).map (whole, fraction, ·)

/-- The number that a decimal numeral denotes. Below zero there is room for one more integer. -/
def decimal? (negative : Bool) (cs : List Char) : Option Number :=
  (parts? Char.isDigit (fun c ↦ c = 'e' || c = 'E') cs).map fun (whole, fraction, exponent) ↦
    let n := digits 10 whole
    if fraction.isNone ∧ exponent.isNone ∧ n < 0x8000000000000000 + (if negative then 1 else 0) then
      .int (Int64.ofInt (if negative then -(n : Int) else n))
    else
      let tail := fraction.getD []
      let x := Decimal.ofDecimal (digits 10 (whole ++ tail)) (exponent.getD 0 - tail.length)
      .float (if negative then -x else x)

def hexadecimal? (negative : Bool) (cs : List Char) : Option Number :=
  (parts? isHexDigit (fun c ↦ c = 'p' || c = 'P') cs).map fun (whole, fraction, exponent) ↦
    if fraction.isNone ∧ exponent.isNone then
      let n := Int64.ofInt (digits 16 whole)
      .int (if negative then -n else n)
    else
      let tail := fraction.getD []
      let x := Decimal.ofBinary (digits 16 (whole ++ tail)) (exponent.getD 0 - 4 * tail.length)
      .float (if negative then -x else x)

/-- The number that a numeral without a sign denotes, or its negation. -/
def number? (negative : Bool) : List Char → Option Number
  | '0' :: 'x' :: rest => hexadecimal? negative rest
  | '0' :: 'X' :: rest => hexadecimal? negative rest
  | cs => decimal? negative cs

/-- The characters that count as space around a numeral and between tokens. -/
def isSpace (c : Char) : Bool :=
  c = ' ' || ('\t' ≤ c && c ≤ '\r')

/-- The number that a text with a numeral denotes, with space around it and a sign if need be. -/
def ofText? (cs : List Char) : Option Number :=
  let cs := ((cs.dropWhile isSpace).reverse.dropWhile isSpace).reverse
  match cs with
  | '-' :: rest => number? true rest
  | '+' :: rest => number? false rest
  | cs => number? false cs

end Numeral

end Reactor.Script

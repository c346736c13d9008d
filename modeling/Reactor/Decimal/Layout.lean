import Reactor.Decimal.Shortest

/-!
# Layouts of decimal numbers

How chosen digits are written: with or without an exponent, and with or without a fraction when
the number is whole. A layout is data, and one function writes digits in any layout.
-/

namespace Reactor.Decimal

/-- The decisions of a notation for floating-point numbers. -/
structure Layout where
  /-- Whether a number whose first digit has the given decimal exponent is written without an
  exponent. -/
  isPositional : Int → Bool
  /-- What follows the digits of a whole number that is written without an exponent. -/
  wholeSuffix : String
  /-- The least number of digits of a written exponent. -/
  exponentWidth : Nat
  /-- The text of a value that is not a number. -/
  notANumber : String
  /-- The text of the positive infinity. -/
  infinity : String

/-- `count` zeros. -/
def zeros (count : Nat) : String :=
  String.ofList (List.replicate count '0')

namespace Layout

def positional (layout : Layout) (d : Digits) : String :=
  let text := toString d.digits
  let places := (-d.exponent).toNat
  if 0 ≤ d.exponent then
    text ++ zeros d.exponent.toNat ++ layout.wholeSuffix
  else if places < text.length then
    String.ofList (text.toList.take (text.length - places)) ++ "." ++
      String.ofList (text.toList.drop (text.length - places))
  else
    "0." ++ zeros (places - text.length) ++ text

/-- The digits as one digit, a fraction if there are more, and the exponent with its sign. -/
def scientific (layout : Layout) (d : Digits) : String :=
  let text := toString d.digits
  let exponent := d.exponent + text.length - 1
  let magnitude := toString exponent.natAbs
  let mantissa :=
    match text.toList with
    | first :: second :: rest => String.ofList (first :: '.' :: second :: rest)
    | _ => text
  mantissa ++ "e" ++ (if exponent < 0 then "-" else "+") ++
    zeros (layout.exponentWidth - magnitude.length) ++ magnitude

/-- Digits in a layout. Zero is written without an exponent. -/
def digits (layout : Layout) (d : Digits) : String :=
  if d.digits = 0 then layout.positional ⟨0, 0⟩
  else if layout.isPositional (d.exponent + (toString d.digits).length - 1) then
    layout.positional d
  else layout.scientific d

/-- A double in a layout, with digits chosen by `choose`. -/
def float (layout : Layout) (choose : Binary → Digits) (x : Float) : String :=
  if x.isNaN then layout.notANumber
  else
    let sign := if x.toBits.toNat / 0x8000000000000000 = 1 then "-" else ""
    if x.isInf then sign ++ layout.infinity
    else
      let b := Binary.ofBits x.toBits
      sign ++ layout.digits (if b.significand = 0 then ⟨0, 0⟩ else choose b)

end Layout

/-- Every number in full, without an exponent and without a fraction if it is whole. -/
def Layout.plain : Layout where
  isPositional _ := true
  wholeSuffix := ""
  exponentWidth := 1
  notANumber := "NaN"
  infinity := "inf"

/-- The text of a floating-point property: the shortest digits that read back, in full. -/
def plainText (x : Float) : String :=
  Layout.plain.float Binary.shortest x

end Reactor.Decimal

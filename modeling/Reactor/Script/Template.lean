import Reactor.Script.Item

/-!
# Templates of formatted strings

A template is text with directives, each of which writes one argument: a percent sign, modifiers,
and a letter that says how the argument is written. The modifiers are flags, the least width, and a
precision after a point; each letter has its own flags.
-/

namespace Reactor.Script.Template

inductive Piece where
  | byte (b : UInt8)
  | directive (modifiers : List Char) (conversion : Char)

def modifierChars : List Char :=
  "-+ #0123456789.".toList

def maxModifiers : Nat :=
  21

/-- The character that a byte of a directive is, a replacement for bytes beyond ASCII. -/
def asChar (b : UInt8) : Char :=
  if b < 0x80 then Char.ofNat b.toNat else '\uFFFD'

/-- The pieces of a template of no more than `rounds` bytes. -/
def pieces? : (rounds : Nat) → Bytes → Option (List Piece)
  | 0, _ => none
  | _ + 1, [] => some []
  | rounds + 1, b :: rest =>
    if b ≠ 37 then (.byte b :: ·) <$> pieces? rounds rest
    else if rest.head? = some 37 then (.byte 37 :: ·) <$> pieces? rounds (rest.drop 1)
    else
      let isModifier (b : UInt8) : Bool := modifierChars.contains (asChar b)
      let modifiers := rest.takeWhile isModifier
      match rest.dropWhile isModifier with
      | [] => none
      | conversion :: rest =>
        if maxModifiers ≤ modifiers.length then none
        else (.directive (modifiers.map asChar) (asChar conversion) :: ·) <$> pieces? rounds rest

def ofBytes? (template : Bytes) : Option (List Piece) :=
  pieces? (template.length + 1) template

structure Style where
  flags : List Char
  width : Nat
  precision : Option Nat
  conversion : Char

namespace Style

def has (s : Style) (flag : Char) : Bool :=
  s.flags.contains flag

/-- The flags that a conversion allows, and whether it allows a precision. -/
def allowed? (conversion : Char) : Option (String × Bool) :=
  if conversion = 'd' ∨ conversion = 'i' then some ("-+ 0", true)
  else if conversion = 'u' then some ("-0", true)
  else if "oxX".toList.contains conversion then some ("-#0", true)
  else if "aAeEfgG".toList.contains conversion then some ("-+ #0", true)
  else if conversion = 's' then some ("-", true)
  else if conversion = 'c' ∨ conversion = 'p' then some ("-", false)
  else none

/-- The number of at most two digits, zero if there is none, and the characters after it. -/
def twoDigits (cs : List Char) : Nat × List Char :=
  let digits := (cs.take 2).takeWhile Char.isDigit
  (Numeral.digits 10 digits, cs.drop digits.length)

/-- The style that modifiers and a conversion give. A width does not start with a zero. -/
def ofModifiers? (modifiers : List Char) (conversion : Char) : Option Style := do
  let (allowed, withPrecision) ← allowed? conversion
  let flags := modifiers.takeWhile allowed.toList.contains
  let rest := modifiers.drop flags.length
  if rest.head? = some '0' then none
  else
    let (width, rest) := twoDigits rest
    match rest with
    | [] => some ⟨flags, width, none, conversion⟩
    | '.' :: tail =>
      let (precision, rest) := twoDigits tail
      if withPrecision ∧ rest = [] then some ⟨flags, width, some precision, conversion⟩ else none
    | _ => none

/-! ## Padding -/

def padding (count : Nat) (c : Char) : Bytes :=
  List.replicate count (UInt8.ofNat c.toNat)

def pad (s : Style) (bytes : Bytes) : Bytes :=
  let fill := padding (s.width - bytes.length) ' '
  if s.has '-' then bytes ++ fill else fill ++ bytes

/-- A number with its sign, filled up with spaces, or with zeros after the sign. -/
def padNumber (s : Style) (withZeros : Bool) (sign digits : String) : Bytes :=
  if withZeros ∧ s.has '0' ∧ ¬s.has '-' then
    Text.Utf8.encode sign ++ padding (s.width - (sign.length + digits.length)) '0' ++
      Text.Utf8.encode digits
  else s.pad (Text.Utf8.encode (sign ++ digits))

def sign (s : Style) (negative : Bool) : String :=
  if negative then "-" else if s.has '+' then "+" else if s.has ' ' then " " else ""

def cased (s : Style) (text : String) : String :=
  if s.conversion.isUpper then text.map Char.toUpper else text

/-! ## Integers -/

def digitsOf (base : Nat) (n : Nat) : String :=
  String.ofList (Nat.toDigits base n)

/-- Digits with leading zeros up to the precision. A precision of zero leaves nothing of a zero. -/
def withPrecision (s : Style) (n : Nat) (digits : String) : String :=
  match s.precision with
  | none => digits
  | some 0 => if n = 0 then "" else digits
  | some precision => Decimal.zeros (precision - digits.length) ++ digits

def signed (s : Style) (n : Int64) : Bytes :=
  let magnitude := n.toInt.natAbs
  s.padNumber s.precision.isNone (s.sign (n < 0)) (s.withPrecision magnitude (toString magnitude))

/-- The bits of an integer as a number in some base. A mark of the base eight is a leading zero, if
there is none anyway. -/
def unsigned (s : Style) (n : Int64) : Bytes :=
  let bits := n.toUInt64.toNat
  let base := if s.conversion = 'u' then 10 else if s.conversion = 'o' then 8 else 16
  let digits := s.withPrecision bits (digitsOf base bits)
  let octal := base = 8 ∧ s.has '#' ∧ digits.toList.head? ≠ some '0'
  let mark := if base = 16 ∧ s.has '#' ∧ bits ≠ 0 then "0x" else ""
  s.padNumber s.precision.isNone (s.cased mark) (s.cased (if octal then "0" ++ digits else digits))

/-! ## Floats -/

/-- A natural number of units of the last of some places after the point. The point is left out if
there are no places, unless it is kept. -/
def withPoint (units : String) (places : Nat) (keepPoint : Bool) : String :=
  let text := Decimal.zeros (places + 1 - units.length) ++ units
  let whole := String.ofList (text.toList.take (text.length - places))
  let fraction := String.ofList (text.toList.drop (text.length - places))
  if places = 0 ∧ ¬keepPoint then whole else whole ++ "." ++ fraction

/-- An exponent with its sign and at least `width` digits. -/
def exponentText (mark : String) (exponent : Int) (width : Nat) : String :=
  let magnitude := toString exponent.natAbs
  mark ++ (if exponent < 0 then "-" else "+") ++ Decimal.zeros (width - magnitude.length) ++
    magnitude

def fixedDigits (b : Decimal.Binary) (places : Nat) (keepPoint : Bool) : String :=
  withPoint (toString (b.fixed places)) places keepPoint

/-- A magnitude rounded to some significant digits, and the exponent of the first of them. -/
def leading (b : Decimal.Binary) (count : Nat) : String × Int :=
  if b.significand = 0 then (Decimal.zeros count, 0)
  else
    let d := b.rounded count
    let digits := toString d.digits
    (digits, d.exponent + digits.length - 1)

/-- A magnitude with one digit before the point and an exponent. -/
def exponentDigits (b : Decimal.Binary) (places : Nat) (keepPoint : Bool) : String :=
  let (digits, exponent) := leading b (places + 1)
  withPoint digits places keepPoint ++ exponentText "e" exponent 2

/-- A text without the zeros at its end, and without a point that is then at its end. -/
def withoutZeros (text : String) : String :=
  if text.toList.contains '.' then
    let cs := text.toList.reverse.dropWhile (· = '0')
    String.ofList (if cs.head? = some '.' then cs.drop 1 else cs).reverse
  else text

/-- A magnitude with a number of significant digits, in the shorter of the two notations. Zeros at
the end are kept if the point is. -/
def generalDigits (b : Decimal.Binary) (count : Nat) (keepPoint : Bool) : String :=
  let (digits, exponent) := leading b count
  let (mantissa, tail) :=
    if -4 ≤ exponent ∧ exponent < count then
      let places := (count - 1 - exponent).toNat
      (withPoint digits places keepPoint, "")
    else (withPoint digits (count - 1) keepPoint, exponentText "e" exponent 2)
  (if keepPoint then mantissa else withoutZeros mantissa) ++ tail

/-- A magnitude in the base sixteen, with all digits or a number of places, and a binary exponent.
-/
def binaryDigits (b : Decimal.Binary) (places? : Option Nat) (keepPoint : Bool) : String :=
  let exponent : Int := if b.significand = 0 then 0 else b.exponent + 52
  let rounded (places : Nat) : Nat :=
    b.significand * Nat.pow 16 (places - 13) |> fun n ↦
      Decimal.roundDiv n (Nat.pow 16 (13 - places))
  let mantissa :=
    match places? with
    | some places => withPoint (digitsOf 16 (rounded places)) places keepPoint
    | none =>
      let text := withoutZeros (withPoint (digitsOf 16 b.significand) 13 true)
      if keepPoint ∧ ¬text.toList.contains '.' then text ++ "." else text
  mantissa ++ exponentText "p" exponent 1

def magnitude (s : Style) (b : Decimal.Binary) : String :=
  let precision := s.precision.getD 6
  let keepPoint := s.has '#'
  if s.conversion = 'f' then fixedDigits b precision keepPoint
  else if s.conversion = 'e' ∨ s.conversion = 'E' then exponentDigits b precision keepPoint
  else if s.conversion = 'a' ∨ s.conversion = 'A' then binaryDigits b s.precision keepPoint
  else generalDigits b (max precision 1) keepPoint

def float (s : Style) (n : Number) : Bytes :=
  match n with
  | .notANumber negative => s.padNumber false (s.sign negative) (s.cased "nan")
  | n =>
    let x := n.toFloat
    let sign := s.sign (x.toBits.toNat / 0x8000000000000000 = 1)
    if x.isInf then s.padNumber false sign (s.cased "inf")
    else
      let mark := if s.conversion = 'a' ∨ s.conversion = 'A' then s.cased "0x" else ""
      s.padNumber true (sign ++ mark) (s.cased (s.magnitude (.ofBits x.toBits)))

/-! ## Arguments -/

def string (s : Style) (bytes : Bytes) : Bytes :=
  s.pad (match s.precision with | none => bytes | some precision => bytes.take precision)

/-- An argument that is written without the help of its metatable. -/
def write? (s : Style) (argument : Item) : Option Bytes :=
  if s.conversion = 'c' then
    argument.toInt?.map fun n ↦ s.pad [UInt8.ofNat (n.toUInt64.toNat % 256)]
  else if s.conversion = 'd' ∨ s.conversion = 'i' then argument.toInt?.map s.signed
  else if "uoxX".toList.contains s.conversion then argument.toInt?.map s.unsigned
  else if s.conversion = 'p' then
    match argument with
    | .nil | .bool _ | .number _ => some (s.pad (Text.Utf8.encode "(null)"))
    | _ => some (s.pad (Text.Utf8.encode "0x0"))
  else argument.toNumber?.map s.float

end Style

/-! ## Literals -/

/-- A byte of a string literal, given the byte after it. A code has three digits if a digit follows
it. -/
def quotedByte (b : UInt8) (next : Option UInt8) : Bytes :=
  if b = 34 ∨ b = 92 ∨ b = 10 then [92, b]
  else if b < 32 ∨ b = 127 then
    let code := toString b.toNat
    let digitFollows := next.any fun b ↦ 48 ≤ b && b ≤ 57
    Text.Utf8.encode ("\\" ++ (if digitFollows then Decimal.zeros (3 - code.length) else "") ++ code)
  else [b]

/-- The bytes between the quotes of a string literal. -/
def quotedBytes : Bytes → Bytes
  | [] => []
  | b :: rest => quotedByte b rest.head? ++ quotedBytes rest

/-- The literal of a number, which reads back as the same number. -/
def numberLiteral : Number → String
  | .int n => if n = Int64.minValue then "0x8000000000000000" else toString n.toInt
  | .notANumber _ => "(0/0)"
  | .float x =>
    let sign := if x.toBits.toNat / 0x8000000000000000 = 1 then "-" else ""
    if x.isInf then sign ++ "1e9999"
    else sign ++ "0x" ++ Style.binaryDigits (.ofBits x.toBits) none false

def literal? : Item → Option Bytes
  | .nil => some (Text.Utf8.encode "nil")
  | .bool value => some (Text.Utf8.encode (if value then "true" else "false"))
  | .number n => some (Text.Utf8.encode (numberLiteral n))
  | .string bytes => some ([34] ++ quotedBytes bytes.toList ++ [34])
  | _ => none

end Reactor.Script.Template

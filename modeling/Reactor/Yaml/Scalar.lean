import Reactor.Decimal.Nearest
import Reactor.Json.Basic
import Reactor.Text.Hex
import Reactor.Yaml.Node

/-!
# The meaning of scalars

A plain scalar without a tag is a null, a boolean, an integer or a float if it is spelled like one,
and a string otherwise. Other scalars are strings, unless a tag names one of these types.
-/

namespace Reactor.Yaml.Scalar

def isNull (text : String) : Bool :=
  ["null", "Null", "NULL", "~"].contains text

def bool? (text : String) : Option Bool :=
  if ["true", "True", "TRUE"].contains text then some true
  else if ["false", "False", "FALSE"].contains text then some false
  else none

/-! ## Integers -/

/-- The number with the given digits in some base, of which there must be one at least. -/
def digits? (base : Nat) (cs : List Char) : Option Nat :=
  if cs = [] then none
  else
    cs.foldlM (fun n c ↦ do
      let digit ← Text.hexValue? c
      if digit < base then some (base * n + digit) else none) 0

/-- The number that a text without a sign spells, with a base marked by `0x`, `0o` or `0b`. Digits
after a leading zero are no number. -/
def magnitude? : List Char → Option Nat
  | '0' :: 'x' :: rest => digits? 16 rest
  | '0' :: 'o' :: rest => digits? 8 rest
  | '0' :: 'b' :: rest => digits? 2 rest
  | ['0'] => some 0
  | '0' :: _ => none
  | cs => digits? 10 cs

def int? (text : String) : Option Int :=
  match text.toList with
  | '-' :: rest => (magnitude? rest).map fun n ↦ -(n : Int)
  | '+' :: rest => (magnitude? rest).map Int.ofNat
  | cs => (magnitude? cs).map Int.ofNat

/-- Whether an integer fits 128 bits: without a sign if it is not negative, and with one
otherwise. -/
def isRepresentable (n : Int) : Bool :=
  -0x80000000000000000000000000000000 ≤ n &&
    n < 0x100000000000000000000000000000000

/-- Whether an integer fits 64 bits, in the same sense. -/
def isExact (n : Int) : Bool :=
  -0x8000000000000000 ≤ n && n < 0x10000000000000000

/-! ## Floats -/

/-- Whether a text is a sign, or none, before several digits of which the first one is a zero. -/
def isPadded (text : String) : Bool :=
  let digits :=
    match text.toList with
    | '-' :: rest => rest
    | '+' :: rest => rest
    | cs => cs
  1 < digits.length && digits.head? = some '0' && digits.all Char.isDigit

def decimal (digits : List Char) : Nat :=
  digits.foldl (fun n c ↦ 10 * n + (c.toNat - '0'.toNat)) 0

def exponent? : List Char → Option Int
  | [] => some 0
  | mark :: rest =>
    if mark = 'e' ∨ mark = 'E' then
      let (negative, digits) :=
        match rest with
        | '-' :: digits => (true, digits)
        | '+' :: digits => (false, digits)
        | digits => (false, digits)
      if digits ≠ [] ∧ digits.all Char.isDigit then
        some (if negative then -(decimal digits : Int) else decimal digits)
      else none
    else none

/-- The float that a text without a sign spells. There has to be a digit before or after the
point, and the value must not be beyond the largest float. -/
def positive? (cs : List Char) : Option Float :=
  let whole := cs.takeWhile Char.isDigit
  let rest := cs.dropWhile Char.isDigit
  let (fraction, rest) :=
    match rest with
    | '.' :: rest => (rest.takeWhile Char.isDigit, rest.dropWhile Char.isDigit)
    | rest => ([], rest)
  if whole = [] ∧ fraction = [] then none
  else
    (exponent? rest).bind fun exponent ↦
      let x := Decimal.ofDecimal (decimal (whole ++ fraction)) (exponent - fraction.length)
      if x.isInf then none else some x

/-- Whether a text spells an infinity or a value that is not a number. -/
def isNonFinite (text : String) : Bool :=
  [".inf", ".Inf", ".INF", "+.inf", "+.Inf", "+.INF", "-.inf", "-.Inf", "-.INF",
    ".nan", ".NaN", ".NAN"].contains text

/-- The document of the float that a text spells. Documents have null where a float is not
finite. -/
def float? (text : String) : Option Json :=
  if isNonFinite text then some .null
  else
    let number :=
      match text.toList with
      | '-' :: rest => (positive? rest).map fun x ↦ -x
      | '+' :: rest => positive? rest
      | cs => positive? cs
    number.map fun x ↦ .number (.float x)

/-! ## Resolution -/

def ofInt (n : Int) : Except ValueProblem Json :=
  if isExact n then .ok (.number (.integer n)) else .error .numberOutOfRange

/-- The document of a plain scalar without a tag. An integer that is too large to be exact has no
document, but beyond 128 bits integers are floats. -/
def resolve (text : String) : Except ValueProblem Json :=
  if text.isEmpty ∨ isNull text then .ok .null
  else
    match bool? text with
    | some value => .ok (.bool value)
    | none =>
      match (int? text).filter isRepresentable with
      | some n => ofInt n
      | none => .ok ((if isPadded text then none else float? text).getD (.string text))

def standardTag (name : String) : String :=
  "tag:yaml.org,2002:" ++ name

def isApplicationTag (tag : String) : Bool :=
  tag.toList.head? = some '!'

/-- The document of a text that is to be spelled like a type. -/
def spelled (text : String) (type : ScalarType) (document : Option Json) :
    Except ValueProblem Json :=
  match document with
  | some document => .ok document
  | none => .error (.spelling text type)

/-- The document of a scalar, if it has one: a scalar of a named type has to be spelled like it,
and tags of an application are not known. -/
def toJson (tag : Option String) (text : String) (plain : Bool) : Except ValueProblem Json :=
  match tag with
  | none => if plain then resolve text else .ok (.string text)
  | some tag =>
    if isApplicationTag tag then .error .applicationTag
    else if tag = standardTag "bool" then spelled text .boolean ((bool? text).map .bool)
    else if tag = standardTag "int" then
      match (int? text).filter isRepresentable with
      | some n => ofInt n
      | none => .error (.spelling text .integer)
    else if tag = standardTag "float" then spelled text .float (float? text)
    else if tag = standardTag "null" then
      spelled text .null (if isNull text then some .null else none)
    else .ok (.string text)

end Reactor.Yaml.Scalar

import Reactor.Script.Library.Argument
import Reactor.Script.Template

/-!
# Functions on strings

Positions in a string count from one, and negative ones count from the end. Letters are those of
ASCII.
-/

namespace Reactor.Script.Library

open Memory

/-- A position in a string of some length, in which negative positions count from the end. -/
def fromEnd (length : Nat) (position : Int) : Int :=
  if position < 0 then max 0 (position + length + 1) else position

def slice (bytes : ByteArray) (first last : Int) : ByteArray :=
  let first := max 1 (fromEnd bytes.size first)
  let last : Int := min (bytes.size : Int) (fromEnd bytes.size last)
  bytes.extract (first.toNat - 1) last.toNat

/-- A letter in upper case. Bytes beyond ASCII stay as they are. -/
def upper (b : UInt8) : UInt8 :=
  if 97 ≤ b ∧ b ≤ 122 then b - 32 else b

/-- A letter in lower case. Bytes beyond ASCII stay as they are. -/
def lower (b : UInt8) : UInt8 :=
  if 65 ≤ b ∧ b ≤ 90 then b + 32 else b

def mapBytes (f : UInt8 → UInt8) (bytes : ByteArray) : ByteArray :=
  bytes.foldl (fun out b ↦ out.push (f b)) (ByteArray.emptyWithCapacity bytes.size)

def maxStringSize : Nat :=
  0x80000000

/-- At least one copy of a string, with a separator between them: `count` further copies. -/
def repeated (bytes separator : ByteArray) (count : Nat) : ByteArray :=
  count.fold (fun _ _ out ↦ out ++ separator ++ bytes) bytes

/-! ## Templates -/

/-- An argument, written as a directive says. A string with modifiers must not hold a zero byte. -/
def writeArgument (call : Caller) (modifiers : List Char) (conversion : Char) (item : Item) :
    Run Bytes := do
  if conversion = 's' then
    let bytes := (← Metatable.text call item).toList
    if modifiers = [] then pure bytes
    else if bytes.contains 0 then failure
    else do pure ((← liftM (Template.Style.ofModifiers? modifiers conversion)).string bytes)
  else if conversion = 'q' then
    if modifiers = [] then liftM (Template.literal? item) else failure
  else
    let style ← liftM (Template.Style.ofModifiers? modifiers conversion)
    liftM (style.write? item)

def fill (call : Caller) : List Template.Piece → List Item → ByteArray → Run ByteArray
  | [], _, out => pure out
  | .byte b :: rest, arguments, out => fill call rest arguments (out.push b)
  | .directive _ _ :: _, [], _ => failure
  | .directive modifiers conversion :: rest, item :: arguments, out => do
    let written ← writeArgument call modifiers conversion item
    fill call rest arguments (written.foldl ByteArray.push out)

/-! ## Numbers in strings -/

/-- An operation on numbers, some of which are spelled by strings. If they are not, the second
operand may define the operation. -/
def stringArithmetic (call : Caller) (op : Arithmetic) (arguments : List Item) :
    Run (List Item) := do
  let a := argument arguments 0
  let b := argument arguments 1
  match a.toNumber?, b.toNumber? with
  | some x, some y => do pure [.number (← liftM (op.result? x y))]
  | _, _ =>
    match b with
    | .string _ => failure
    | _ =>
      let f ← handler b (Event.arithmetic op)
      if f.isNil then failure else do pure [Metatable.first (← call f [a, b])]

def stringNegate (call : Caller) (arguments : List Item) : Run (List Item) := do
  let a := argument arguments 0
  match a.toNumber?, argument arguments 1 with
  | some x, _ => pure [.number x.negate]
  | none, .string _ => failure
  | none, b =>
    let f ← handler b Event.negate
    if f.isNil then failure else do pure [Metatable.first (← call f [a, b])]

/-! ## All functions -/

def onStrings (call : Caller) (f : Builtin) (arguments : List Item) : Run (List Item) := do
  match f with
  | .stringLength => do pure [.ofInt (← bytesArgument arguments 0).size]
  | .stringUpper => do pure [.string (mapBytes upper (← bytesArgument arguments 0))]
  | .stringLower => do pure [.string (mapBytes lower (← bytesArgument arguments 0))]
  | .stringReverse => do
    pure [.ofBytes (← bytesArgument arguments 0).toList.reverse]
  | .stringSub => do
    let bytes ← bytesArgument arguments 0
    let first ← intArgument arguments 1
    let last ← intArgumentOr arguments 2 (-1)
    pure [.string (slice bytes first last)]
  | .stringRepeat => do
    let bytes ← bytesArgument arguments 0
    let count ← intArgument arguments 1
    let separator ← bytesArgumentOr arguments 2 .empty
    if count ≤ 0 then pure [.string .empty]
    else if maxStringSize < (bytes.size + separator.size) * count.toNat then failure
    else if bytes.isEmpty ∧ separator.isEmpty then pure [.string .empty]
    else pure [.string (repeated bytes separator (count.toNat - 1))]
  | .stringByte => do
    let bytes ← bytesArgument arguments 0
    let first ← intArgumentOr arguments 1 1
    let last ← intArgumentOr arguments 2 first
    pure ((slice bytes first last).toList.map fun b ↦ .ofInt b.toNat)
  | .stringChar => do
    let codes ← arguments.mapM fun item ↦ do
      let code := (← liftM item.toInt?).toInt
      if 0 ≤ code ∧ code < 256 then pure (UInt8.ofNat code.toNat) else failure
    pure [.ofBytes codes]
  | .stringFormat => do
    let template ← bytesArgument arguments 0
    let pieces ← liftM (Template.ofBytes? template.toList)
    pure [.string (← fill call pieces (arguments.drop 1) .empty)]
  | .stringArithmetic op => stringArithmetic call op arguments
  | .stringNegate => stringNegate call arguments
  | _ => failure

end Reactor.Script.Library

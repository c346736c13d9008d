import Reactor.Script.Number

/-!
# Operations of scripts

The operators that are written in a script, and what those on numbers compute.
-/

namespace Reactor.Script

inductive Arithmetic where
  | add
  | sub
  | mul
  | div
  | floorDiv
  | mod
  | power
  | bitAnd
  | bitOr
  | bitXor
  | shiftLeft
  | shiftRight
  deriving DecidableEq

inductive Relation where
  | eq
  | ne
  | lt
  | le
  | gt
  | ge
  deriving DecidableEq

inductive UnaryOp where
  | negate
  | not
  | length
  | bitNot
  deriving DecidableEq

namespace Arithmetic

/-- An operation on the bits of two integers, which fails for a number that is not equal to an
integer. -/
def onBits? (f : Int64 → Int64 → Int64) (a b : Number) : Option Number := do
  let x ← a.toInt?
  let y ← b.toInt?
  some (.int (f x y))

/-- The bits of `a` moved to the right by `b`, or to the left if `b` is negative. No shift by the
least integer leaves a bit. -/
def shiftRightBy (a b : Int64) : Int64 :=
  if b = Int64.minValue then 0 else Number.shiftLeft a (-b)

def result? (op : Arithmetic) (a b : Number) : Option Number :=
  match op with
  | add => some (a.add b)
  | sub => some (a.sub b)
  | mul => some (a.mul b)
  | div => some (a.quotient b)
  | floorDiv => a.floorDiv? b
  | mod => a.mod? b
  | power => some (a.power b)
  | bitAnd => onBits? (· &&& ·) a b
  | bitOr => onBits? (· ||| ·) a b
  | bitXor => onBits? (· ^^^ ·) a b
  | shiftLeft => onBits? Number.shiftLeft a b
  | shiftRight => onBits? shiftRightBy a b

/-- The result of an operation on two numerals that is computed in advance. What depends on the
sign of a zero or of what is not a number is left to the run of the script, and so is a division by
zero. -/
def fold? (op : Arithmetic) (a b : Number) : Option Number := do
  if (op = div ∨ op = floorDiv ∨ op = mod) ∧ b.toFloat == 0 then none
  else
    match ← op.result? a b with
    | .int n => some (.int n)
    | .float x => if x == 0 then none else some (.float x)
    | .notANumber _ => none

end Arithmetic

end Reactor.Script

import Reactor.Script.Compile.Pending

/-!
# Operators under construction

What an operator does to its operands: numerals are computed in advance, constants and small
integers become a part of the instruction, and all other operands are put into registers. An
operator of two operands prepares the first one before the second one is compiled.
-/

namespace Reactor.Script.Pending

/-- Gives the registers of two expressions back, the later one first. -/
def releaseBoth (a b : Pending) : Build Unit := do
  match a.place, b.place with
  | .register r, .register s =>
    Build.release (max r s)
    Build.release (min r s)
  | _, _ =>
    a.release
    b.release

/-! ## One operand -/

def unaryInstruction (op : UnaryOp) (p : Pending) : Build Pending := do
  let (p, r) ← p.toAnyRegister
  p.release
  pure (ofPlace (.result (← Build.emit (.unary op 0 r))))

/-- The negation of a condition. What decides the expression decides it the other way round, and
keeps no value. -/
def negation (p : Pending) : Build Pending := do
  let place ←
    match p.place with
    | .value item => pure (.value (.bool !item.isTrue))
    | .constant _ _ => pure (.value (.bool false))
    | .comparison position => do
      Build.revise position Instruction.negated
      pure (.comparison position)
    | _ => do
      let p ← p.putAnywhere
      p.release
      match p.place with
      | .register r => do pure (.result (← Build.emit (.unary .not 0 r)))
      | place => pure place
  (p.onTrue ++ p.onFalse).forM fun jump ↦ Build.revise jump Instruction.withoutValue
  pure ⟨place, p.onFalse, p.onTrue⟩

/-- The result of an operation on a numeral that is computed in advance. -/
def foldUnary? (op : UnaryOp) (n : Number) : Option Number :=
  match op with
  | .negate => Arithmetic.sub.fold? (.int 0) n
  | .bitNot => Arithmetic.bitXor.fold? (.int (-1)) n
  | _ => none

def unary (op : UnaryOp) (p : Pending) : Build Pending := do
  let p ← p.read
  match op with
  | .not => p.negation
  | op =>
    match p.numeral?.bind (foldUnary? op) with
    | some n => pure (ofPlace (.value (.number n)))
    | none => p.unaryInstruction op

/-! ## Arithmetic -/

/-- The first operand of an operation, in a register unless it is a numeral. -/
def arithmeticOperand (p : Pending) : Build Pending := do
  let p ← p.read
  if p.numeral?.isSome then pure p else pure (← p.toAnyRegister).1

/-- The instruction of an operation of which `a` still has to be put into a register. -/
def finish (a b : Pending) (instruction : Nat → Instruction) : Build Pending := do
  let (a, r) ← a.toAnyRegister
  let position ← Build.emit (instruction r)
  releaseBoth a b
  pure (ofPlace (.result position))

def onRegisters (op : Arithmetic) (a b : Pending) : Build Pending := do
  let (b, s) ← b.toAnyRegister
  finish a b fun r ↦ .arithmetic op 0 (.register r) (.register s)

/-- An operation on a register and a known value, which is the first operand if `isFirst` holds. -/
def onValue (op : Arithmetic) (isFirst : Bool) (a b : Pending) (item : Item) : Build Pending :=
  finish a b fun r ↦
    if isFirst then .arithmetic op 0 (.value item) (.register r)
    else .arithmetic op 0 (.register r) (.value item)

/-- An operation on an operand `a` and a second one that may be a constant. The operands are
written the other way round if `isFirst` holds. -/
def onConstant (op : Arithmetic) (isFirst : Bool) (a b : Pending) : Build Pending := do
  match ← b.toConstant? with
  | some (b, item) => onValue op isFirst a b item
  | none => if isFirst then onRegisters op b a else onRegisters op a b

def onNumeral (op : Arithmetic) (isFirst : Bool) (a b : Pending) : Build Pending :=
  if b.numeral?.isSome then onConstant op isFirst a b
  else if isFirst then onRegisters op b a
  else onRegisters op a b

/-- An operation of which either operand may be a numeral. -/
def commutative (op : Arithmetic) (a b : Pending) : Build Pending :=
  let isFirst := a.numeral?.isSome
  let (a, b) := if isFirst then (b, a) else (a, b)
  match op, b.integer?.filter isSmall with
  | .add, some n => onValue op isFirst a b (.number (.int n))
  | _, _ => onNumeral op isFirst a b

/-- An operation on bits of which either operand may be an integer. -/
def bitwise (op : Arithmetic) (a b : Pending) : Build Pending :=
  let isFirst := a.integer?.isSome
  let (a, b) := if isFirst then (b, a) else (a, b)
  if b.integer?.isSome then onConstant op isFirst a b
  else if isFirst then onRegisters op b a
  else onRegisters op a b

/-- The small integer that the expression is known to be, if its negation is small too. -/
def symmetric? (p : Pending) : Option Int64 :=
  p.integer?.filter fun n ↦ isSmall n && isSmall (-n)

/-- An operation on two numbers, of which the first one was prepared by `arithmeticOperand`. -/
def arithmetic (op : Arithmetic) (a b : Pending) : Build Pending := do
  let b ← b.read
  let folded := do op.fold? (← a.numeral?) (← b.numeral?)
  match folded with
  | some n => pure (ofPlace (.value (.number n)))
  | none =>
    match op with
    | .add | .mul => commutative op a b
    | .sub =>
      match b.symmetric? with
      | some n => finish a b fun r ↦ .reduce 0 r n
      | none => onNumeral op false a b
    | .div | .floorDiv | .mod | .power => onNumeral op false a b
    | .bitAnd | .bitOr | .bitXor => bitwise op a b
    | .shiftLeft =>
      match a.integer?.filter isSmall, b.symmetric? with
      | some n, _ => onValue op true b a (.number (.int n))
      | none, some n => onValue op false a b (.number (.int n))
      | none, none => onRegisters op a b
    | .shiftRight =>
      match b.integer?.filter isSmall with
      | some n => onValue op false a b (.number (.int n))
      | none => onRegisters op a b

/-! ## Comparisons -/

/-- The first operand of a comparison, prepared for the second one. -/
def relationOperand (relation : Relation) (p : Pending) : Build Pending := do
  let p ← p.read
  match relation with
  | .eq | .ne => if p.numeral?.isSome then pure p else pure (← p.toOperand).1
  | _ => if p.smallNumeral?.isSome then pure p else pure (← p.toAnyRegister).1

def comparing (a b : Pending) (instruction : Instruction) : Build Pending := do
  releaseBoth a b
  pure (ofPlace (.comparison (← Build.emit instruction)))

def equality (a b : Pending) (expected : Bool) : Build Pending := do
  let (a, b) :=
    match a.place with
    | .register _ => (a, b)
    | _ => (b, a)
  let (a, r) ← a.toAnyRegister
  match b.smallNumeral? with
  | some n => comparing a b (.compare .eq (.register r) (.value (.number n)) expected 0)
  | none =>
    let (b, operand) ← b.toOperand
    comparing a b (.compare .eq (.register r) operand expected 0)

/-- Whether a value comes before another. -/
def ordering (relation : Relation) (a b : Pending) : Build Pending := do
  match b.smallNumeral?, a.smallNumeral? with
  | some n, _ =>
    let (a, r) ← a.toAnyRegister
    comparing a b (.compare relation (.register r) (.value (.number n)) true 0)
  | none, some n =>
    let (b, s) ← b.toAnyRegister
    comparing a b (.compare relation (.value (.number n)) (.register s) true 0)
  | none, none =>
    let (a, r) ← a.toAnyRegister
    let (b, s) ← b.toAnyRegister
    comparing a b (.compare relation (.register r) (.register s) true 0)

def relation (relation : Relation) (a b : Pending) : Build Pending := do
  let b ← b.read
  match relation with
  | .eq => equality a b true
  | .ne => equality a b false
  | .lt => ordering .lt a b
  | .le => ordering .le a b
  | .gt => ordering .lt b a
  | .ge => ordering .le b a

/-! ## Strings -/

/-- Two values joined, of which the first one is in the register before that of the second one. A
second value that was joined just before is not joined by itself. -/
def concat (a b : Pending) : Build Pending := do
  let b ← (← b.read).toNextRegister
  let d ← Build.draft
  let last? := if d.lastTarget < d.instructions.size then d.instructions.back? else none
  match a.place, last? with
  | .register r, some (.concat _ count) =>
    b.release
    Build.revise (d.instructions.size - 1) fun _ ↦ .concat r (count + 1)
  | .register r, _ =>
    discard (Build.emit (.concat r 2))
    b.release
  | _, _ => failure
  pure a

end Reactor.Script.Pending

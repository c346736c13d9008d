import Reactor.Script.Library.Catalog

/-!
# The machine

The machine runs the instructions of functions. The registers of a call are slots of the stack, and
a call of a function that was compiled waits for its results in a list, so scripts can nest such
calls as deep as the stack is large. Only an operation that calls a function by itself, for instance
because a metatable says so, nests the machine in itself, and that is possible only to a small
depth.
-/

namespace Reactor.Script

open Memory

/-- A call that runs. -/
structure Frame where
  prototype : Prototype
  /-- The cells of the variables from further out. -/
  cells : Array Nat
  /-- The slot of the first register. -/
  base : Nat
  /-- The number of further arguments, which are in the slots before the registers. -/
  extra : Nat
  /-- The position of the next instruction. -/
  next : Nat
  /-- The slot of the first result. -/
  place : Nat
  /-- How many results are wanted. -/
  wanted : Count

/-- The state of the machine, apart from the memory. -/
structure Machine where
  frame : Frame
  /-- The calls that wait for results, innermost first. -/
  callers : List Frame
  /-- The slot after the last of several values whose number is open. -/
  top : Nat

/-- What comes after an instruction. -/
inductive Outcome where
  | running (s : Machine)
  | finished (results : List Item)

namespace Frame

def ceiling (f : Frame) : Nat :=
  f.base + f.prototype.size

def register (f : Frame) (r : Nat) : Run Item :=
  slot (f.base + r)

def setRegister (f : Frame) (r : Nat) (item : Item) : Run Unit :=
  setSlot (f.base + r) item

def cellOf (f : Frame) (index : Nat) : Run Nat :=
  liftM f.cells[index]?

def operand (f : Frame) : Operand → Run Item
  | .register r => f.register r
  | .upvalue index => do cell (← f.cellOf index)
  | .value item => pure item

def goTo (f : Frame) (position : Nat) : Frame :=
  { f with next := position }

end Frame

namespace Machine

/-! ## Calls -/

def librarySlots : Nat :=
  20

/-- The function in a slot and the number of its arguments. What is no function is an argument of
the function that its metatable has for it. -/
def callee (position count : Nat) : (rounds : Nat) → Run (Item × Nat)
  | 0 => failure
  | rounds + 1 => do
    let item ← slot position
    if item.isFunction then pure (item, count)
    else
      let f ← handler item Event.call
      if f.isNil then failure
      else
        reach (position + count + 2)
        setSlots position (f :: (← slots position (count + 1)))
        callee position (count + 1) rounds

/-- Starts a call of a compiled function, which is in a slot with its arguments behind it. -/
def enter (id position count : Nat) (wanted : Count) : Run Frame := do
  let c ← closure id
  let p ← prototype c.prototype
  let given := max count p.parameters
  let base := position + 1 + (if p.variadic then given + 1 else 0)
  if maxStack < position + 1 + count + p.size then failure
  reach (base + p.size)
  if count < given then clearSlots (position + 1 + count) (given - count)
  if p.variadic then
    setSlots base (← slots (position + 1) p.parameters)
    clearSlots (position + 1) p.parameters
  setCeiling (base + p.size)
  pure ⟨p, c.cells, base, given - p.parameters, 0, position, wanted⟩

/-- Calls a function of the library, which is in a slot with its arguments behind it. -/
def applyAt (call : Caller) (f : Builtin) (position count : Nat) : Run (List Item) := do
  if maxStack < position + 1 + count + librarySlots then failure
  setCeiling (position + 1 + count)
  Library.apply call f (← slots (position + 1) count)

/-- Puts results where they are wanted. The slot after the last one is returned. -/
def deliver (place : Nat) (wanted : Count) (results : List Item) : Run Nat := do
  match wanted, results with
  | some 0, _ => pure place
  | some 1, results =>
    setSlot place (Metatable.first results)
    pure (place + 1)
  | some count, results =>
    setSlots place (results.take count)
    if results.length < count then clearSlots (place + results.length) (count - results.length)
    pure (place + count)
  | none, results =>
    reach (place + results.length)
    setSlots place results
    pure (place + results.length)

/-- The number of values behind a slot, all up to the top if it is open. -/
def countBehind (s : Machine) (position : Nat) : Count → Nat
  | some count => count
  | none => s.top - (position + 1)

def leave (s : Machine) (results : List Item) : Run Outcome := do
  close s.frame.base
  match s.callers with
  | [] => pure (.finished results)
  | caller :: callers =>
    let top ← deliver s.frame.place s.frame.wanted results
    setCeiling caller.ceiling
    pure (.running ⟨caller, callers, top⟩)

/-- Calls a function. The call that runs waits for its results. -/
def callAt (call : Caller) (s : Machine) (position count : Nat) (wanted : Count) :
    Run Machine := do
  let (f, count) ← callee position count maxStack
  match f with
  | .closure id => do
    let frame ← enter id position count wanted
    pure { s with frame, callers := s.frame :: s.callers }
  | .builtin f => do
    let results ← applyAt call f position count
    let top ← deliver position wanted results
    setCeiling s.frame.ceiling
    pure { s with top }
  | _ => failure

def tailCallAt (call : Caller) (s : Machine) (position count : Nat) : Run Outcome := do
  let f := s.frame
  close f.base
  let (item, count) ← callee position count maxStack
  match item with
  | .closure id => do
    let p ← prototype (← closure id).prototype
    let spared := if f.prototype.variadic then f.extra + f.prototype.parameters + 1 else 0
    if maxStack + spared < position + 1 + count + p.size then failure
    setSlots f.place (← slots position (count + 1))
    let frame ← enter id f.place count f.wanted
    pure (.running { s with frame })
  | .builtin b => do s.leave (← applyAt call b position count)
  | _ => failure

/-! ## Loops over numbers -/

/-- The last integer of a loop, none if there is no round. A limit that is no integer is rounded
toward the start. -/
def countLimit? (start step : Int64) (limit : Number) : Option Int64 :=
  let last? : Option Int64 :=
    match limit with
    | .int n => some n
    | .float x =>
      match Number.exactInt? (if step < 0 then x.ceil else x.floor) with
      | some n => some n
      | none =>
        if 0 < x then (if step < 0 then none else some Int64.maxValue)
        else if 0 < step then none
        else some Int64.minValue
    | .notANumber _ => if 0 < step then none else some Int64.minValue
  last?.filter fun last ↦ if 0 < step then start ≤ last else last ≤ start

/-- The number of rounds after the first one. -/
def countRounds (start last step : Int64) : Int64 :=
  if 0 < step then ((last.toUInt64 - start.toUInt64) / step.toUInt64).toInt64
  else ((start.toUInt64 - last.toUInt64) / ((-(step + 1)).toUInt64 + 1)).toInt64

/-- Whether a loop over floats has a round. -/
def countsOn (x limit step : Number) : Bool :=
  if (Number.int 0).lt step then x.le limit else limit.le x

/-- The registers of a loop over numbers at its start: the index, the limit or the number of rounds
that are left, the step, and the variable. There are none if there is no round. -/
def countStart? (start limit step : Item) : Option (Option (List Item)) :=
  match start, step with
  | .number (.int start), .number (.int step) => do
    let limit ← limit.toNumber?
    if step = 0 then none
    else
      some ((countLimit? start step limit).map fun last ↦
        [.number (.int start), .number (.int (countRounds start last step)), .number (.int step),
          .number (.int start)])
  | _, _ => do
    let limit := (← limit.toNumber?).asFloat
    let step := (← step.toNumber?).asFloat
    let start := (← start.toNumber?).asFloat
    if step.eq (.int 0) then none
    else if (if (Number.int 0).lt step then limit.lt start else start.lt limit) then some none
    else some (some [.number start, .number limit, .number step, .number start])

/-- The registers of a loop over numbers in its next round, if there is one. -/
def countNext? (index rest step : Item) : Option (List Item) :=
  match index, rest, step with
  | .number (.int index), .number (.int rest), .number (.int step) =>
    if rest = 0 then none
    else
      let index := Item.number (.int (index + step))
      some [index, .number (.int (rest - 1)), .number (.int step), index]
  | .number index, .number limit, .number step =>
    let next := index.add step
    if countsOn next limit step then some [.number next, .number limit, .number step, .number next]
    else none
  | _, _, _ => none

/-! ## Instructions -/

def joinAll (call : Caller) (items : List Item) : Run Item := do
  match items.mapM Item.toBytes? with
  | some parts => pure (.string (parts.foldl (· ++ ·) .empty))
  | none =>
    match items.reverse with
    | [] => failure
    | last :: rest => rest.foldlM (fun joined item ↦ Metatable.concat call item joined) last

/-- Whether the value of a variable can be closed at the end of its life. -/
def isClosable (item : Item) : Run Bool := do
  pure (!item.isTrue || !(← handler item Event.close).isNil)

def perform (call : Caller) (f : Frame) : Instruction → Run Unit
  | .move target source => do f.setRegister target (← f.register source)
  | .load target item => f.setRegister target item
  | .clear first count => clearSlots (f.base + first) count
  | .readUpvalue target index => do f.setRegister target (← cell (← f.cellOf index))
  | .writeUpvalue index source => do setCell (← f.cellOf index) (← f.register source)
  | .index target table key => do
    let table ← f.operand table
    f.setRegister target (← Metatable.index call table (← f.operand key))
  | .setIndex table key new => do
    let table ← f.operand table
    let key ← f.operand key
    Metatable.setIndex call table key (← f.operand new)
  | .method target object key => do
    let object ← f.register object
    let method ← Metatable.index call object (← f.operand key)
    f.setRegister (target + 1) object
    f.setRegister target method
  | .newTable target itemCount nodeCount => do
    f.setRegister target (← newTable (.sized itemCount nodeCount))
  | .arithmetic op target a b => do
    let a ← f.operand a
    f.setRegister target (← Metatable.arithmetic call op a (← f.operand b))
  | .reduce target source n => do
    f.setRegister target (← Metatable.reduce call (← f.register source) n)
  | .unary op target source => do
    f.setRegister target (← Metatable.unary call op (← f.register source))
  | .concat first count => do
    f.setRegister first (← joinAll call (← slots (f.base + first) count))
  | .closure target function => do
    let captures := (← prototype function).captures
    let cells ← captures.mapM fun
      | .register r => share (f.base + r)
      | .upvalue index => f.cellOf index
    f.setRegister target (← newClosure ⟨function, cells⟩)
  | .close first => close (f.base + first)
  | .requireClosable source => do
    if ¬(← isClosable (← f.register source)) then failure
  | .eachCall base count => do
    let position := f.base + base
    let arguments ← slots (position + 1) 2
    setCeiling (position + 4)
    let results ← call (← slot position) arguments
    setCeiling f.ceiling
    discard (deliver (position + 4) (some count) results)
  | _ => failure

def step (call : Caller) (s : Machine) : Run Outcome := do
  let f := s.frame.goTo (s.frame.next + 1)
  let onward : Outcome := .running { s with frame := f }
  let jump (position : Nat) : Outcome := .running { s with frame := f.goTo position }
  match s.frame.prototype.instructions[s.frame.next]? with
  | none => failure
  | some (.jump destination) => pure (jump destination)
  | some (.test source expected destination) => do
    pure (if (← f.register source).isTrue = expected then jump destination else onward)
  | some (.testSet target source expected destination) => do
    let item ← f.register source
    if item.isTrue = expected then
      target.forM fun target ↦ f.setRegister target item
      pure (jump destination)
    else pure onward
  | some (.compare relation a b expected destination) => do
    let a ← f.operand a
    let holds ← Metatable.compare call relation a (← f.operand b)
    pure (if holds = expected then jump destination else onward)
  | some (.call function arguments results) => do
    let position := f.base + function
    let s := { s with frame := f }
    pure (.running (← s.callAt call position (s.countBehind position arguments) results))
  | some (.tailCall function arguments) =>
    let position := f.base + function
    s.tailCallAt call position (s.countBehind position arguments)
  | some (.result first count) => do
    let first := f.base + first
    s.leave (← slots first (count.getD (s.top - first)))
  | some (.countStart base destination) => do
    let start ← f.register base
    let limit ← f.register (base + 1)
    match ← liftM (countStart? start limit (← f.register (base + 2))) with
    | some registers => do
      setSlots (f.base + base) registers
      pure onward
    | none => pure (jump destination)
  | some (.countNext base destination) => do
    let index ← f.register base
    let rest ← f.register (base + 1)
    match countNext? index rest (← f.register (base + 2)) with
    | some registers => do
      setSlots (f.base + base) registers
      pure (jump destination)
    | none => pure onward
  | some (.eachStart base destination) => do
    if ← isClosable (← f.register (base + 3)) then pure (jump destination) else failure
  | some (.eachNext base destination) => do
    let item ← f.register (base + 4)
    if item.isNil then pure onward
    else
      f.setRegister (base + 2) item
      pure (jump destination)
  | some (.varargs target count) => do
    let wanted := count.getD f.extra
    let first := f.base + target
    if maxStack < f.ceiling + wanted then failure
    let items ← slots (f.base - 1 - f.extra) f.extra
    reach (first + wanted)
    let top ← deliver first (some wanted) items
    pure (.running { s with frame := f, top })
  | some (.setItems table count offset) => do
    let position := f.base + table
    match ← slot position with
    | .table id => do
      let items ← slots (position + 1) (s.countBehind position count)
      changeTable id (·.setItems offset items)
      pure onward
    | _ => failure
  | some instruction => do
    perform call f instruction
    pure onward

/-- The results of a call, given that the machine takes no more than `rounds` steps. -/
def run (call : Caller) : (rounds : Nat) → Machine → Run (List Item)
  | 0, _ => failure
  | rounds + 1, s => fun m ↦
    match step call s m with
    | none => none
    | some (.running s, m) => run call rounds s m
    | some (.finished results, m) => some (results, m)

/-- The number of steps that no script reaches. -/
def maxRounds : Nat :=
  1000000000000000

/-- The results of a function, given that calls may be nested as deep as `depth` in the machine
itself. -/
def call : (depth : Nat) → Caller
  | 0, _, _ => failure
  | depth + 1, f, arguments => do
    let position := (← get).ceiling
    reach (position + 1 + arguments.length)
    setSlots position (f :: arguments)
    let (f, count) ← callee position arguments.length maxStack
    let results ←
      match f with
      | .closure id => do
        let frame ← enter id position count none
        run (call depth) maxRounds ⟨frame, [], 0⟩
      | .builtin f => applyAt (call depth) f position count
      | _ => failure
    setCeiling position
    pure results

/-- How deep calls may be nested in the machine itself. -/
def maxDepth : Nat :=
  199

def results : Run (List Item) := do
  let environment := (← get).cells.size
  modify fun m ↦ { m with cells := m.cells.push (.apart (.table globals)) }
  let main ← newClosure ⟨(← get).program.size - 1, #[environment]⟩
  call maxDepth main []

end Machine

end Reactor.Script

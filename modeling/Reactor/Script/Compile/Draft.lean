import Reactor.Script.Code
import Reactor.Script.Table

/-!
# Functions under construction

While a function is compiled, its instructions are collected, registers are given to its variables
and to what waits for use, and the constants and the variables from further out that it uses are
counted. Each of these numbers has a limit, so a function can be too large to be compiled.
-/

namespace Reactor.Script

inductive Home where
  | register (r : Nat)
  /-- The variable is a constant that is known in advance. -/
  | constant (item : Item)

structure Variable where
  name : String
  home : Home
  /-- Whether a function further in uses it. -/
  captured : Bool

/-- A loop around the place that is compiled. -/
structure Loop where
  /-- The first register that belongs to the loop. -/
  level : Nat
  /-- The jumps that leave the loop. -/
  exits : List Nat

/-- A function under construction. -/
structure Draft where
  instructions : Array Instruction
  constants : Array Item
  /-- The variables from further out, and where they are found. -/
  upvalues : Array (String × Capture)
  /-- The local variables, innermost first. -/
  locals : List Variable
  /-- The loops, innermost first. -/
  loops : List Loop
  /-- The first register that is not in use. -/
  free : Nat
  /-- The number of registers that are needed. -/
  size : Nat
  /-- The last position to which there may be a jump. -/
  lastTarget : Nat
  /-- Whether something has to be done at the end of a block around the place that is compiled, so
  that no call can take the place of the function. -/
  sheltered : Bool

/-- What is known while a program is compiled. -/
structure Compilation where
  /-- The function that is compiled. -/
  draft : Draft
  /-- The functions around it, innermost first. -/
  outer : List Draft
  /-- The index that a constant got when it was last used in any function. -/
  recent : Table
  /-- The functions that are complete. -/
  finished : Array Prototype

/-- A step of the compilation, which may fail. -/
abbrev Build := StateT Compilation Option

namespace Draft

def empty : Draft :=
  ⟨#[], #[], #[], [], [], 0, 2, 0, false⟩

def maxRegisters : Nat :=
  255

def maxVariables : Nat :=
  200

/-- The most variables that a function uses from further out. -/
def maxUpvalues : Nat :=
  255

/-- The greatest index of a constant that can be an operand. -/
def maxOperand : Nat :=
  255

def levelOf : List Variable → Nat
  | [] => 0
  | v :: rest =>
    match v.home with
    | .register r => r + 1
    | .constant _ => levelOf rest

/-- The first register after those of the variables. -/
def level (d : Draft) : Nat :=
  levelOf d.locals

end Draft

namespace Build

def draft : Build Draft := do
  pure (← get).draft

def change (f : Draft → Draft) : Build Unit :=
  modify fun c ↦ { c with draft := f c.draft }

/-! ## Instructions -/

def emit (instruction : Instruction) : Build Nat := do
  let position := (← draft).instructions.size
  change fun d ↦ { d with instructions := d.instructions.push instruction }
  pure position

def revise (position : Nat) (f : Instruction → Instruction) : Build Unit :=
  change fun d ↦ { d with instructions := d.instructions.modify position f }

/-- The next position, to which there may be a jump from now on. -/
def here : Build Nat := do
  change fun d ↦ { d with lastTarget := d.instructions.size }
  pure (← draft).instructions.size

/-- Directs jumps that keep no value to a position. -/
def direct (jumps : List Nat) (destination : Nat) : Build Unit :=
  jumps.forM fun jump ↦ revise jump fun i ↦ i.withoutValue.goingTo destination

/-- Directs jumps that keep no value to the next position. -/
def directHere (jumps : List Nat) : Build Unit := do
  direct jumps (← here)

/-! ## Registers -/

/-- Makes sure that there are registers behind those in use. -/
def require (count : Nat) : Build Unit := do
  let needed := (← draft).free + count
  if Draft.maxRegisters ≤ needed then failure
  else change fun d ↦ { d with size := max d.size needed }

/-- Takes registers behind those in use. -/
def reserve (count : Nat) : Build Unit := do
  require count
  change fun d ↦ { d with free := d.free + count }

/-- Gives a register back unless it is that of a variable. -/
def release (r : Nat) : Build Unit :=
  change fun d ↦ if d.level ≤ r then { d with free := d.free - 1 } else d

/-! ## Constants -/

def isSameConstant : Item → Item → Bool
  | .number (.int a), .number (.int b) => a = b
  | .number (.int _), _ => false
  | _, .number (.int _) => false
  | a, b => a.same b

/-- The key under which the index of a constant is kept. The next float after a float that is equal
to an integer stands for it, since the integer itself may be a constant too. -/
def constantKey : Item → Item
  | .nil => .table 0
  | .number (.float x) =>
    if (Number.exactInt? x).isNone then .number (.float x)
    else
      let unit := Decimal.ofBinary 1 (-52)
      .number (.float (if x == 0 then unit else x + x * unit))
  | item => item

/-- The index of a constant, which is a new one unless the last use of the constant was in the same
function. -/
def constantIndex (item : Item) : Build Nat := do
  let d ← draft
  let recent (index : Nat) : Bool := (d.constants[index]?).any (isSameConstant item)
  let added : Build Nat := do
    modify fun c ↦
      { c with
        draft := { c.draft with constants := c.draft.constants.push item }
        recent := c.recent.set (constantKey item) (.ofInt d.constants.size) }
    pure d.constants.size
  match (← get).recent.get (constantKey item) with
  | .number (.int n) => if recent n.toInt.toNat then pure n.toInt.toNat else added
  | _ => added

/-! ## Variables -/

/-- Declares variables in the next registers behind those of the other variables. -/
def declare (names : List String) : Build Unit :=
  names.forM fun name ↦ change fun d ↦
    { d with locals := ⟨name, .register d.level, false⟩ :: d.locals }

def declareConstant (name : String) (item : Item) : Build Unit :=
  change fun d ↦ { d with locals := ⟨name, .constant item, false⟩ :: d.locals }

/-- Makes sure that there may be as many further variables. -/
def allow (count : Nat) : Build Unit := do
  if Draft.maxVariables < (← draft).locals.length + count then failure else pure ()

inductive Found where
  | register (r : Nat)
  | upvalue (index : Nat)
  | constant (item : Item)
  /-- No variable has the name. -/
  | nowhere

def markCaptured (name : String) : List Variable → List Variable
  | [] => []
  | v :: rest =>
    if v.name = name then { v with captured := true } :: rest else v :: markCaptured name rest

/-- A function with a further variable from further out, unless there are too many. -/
def addUpvalue? (d : Draft) (name : String) (capture : Capture) : Option (Found × Draft) :=
  if d.upvalues.size < Draft.maxUpvalues then
    some (.upvalue d.upvalues.size, { d with upvalues := d.upvalues.push (name, capture) })
  else none

/-- Looks a name up in a function and in the functions around it. A variable of a function further
out becomes one of all functions between. -/
def find? (name : String) (d : Draft) (outer : List Draft) :
    Option (Found × Draft × List Draft) :=
  match d.locals.find? (·.name = name), d.upvalues.findIdx? (·.1 = name), outer with
  | some ⟨_, .register r, _⟩, _, _ => some (.register r, d, outer)
  | some ⟨_, .constant item, _⟩, _, _ => some (.constant item, d, outer)
  | none, some index, _ => some (.upvalue index, d, outer)
  | none, none, [] => some (.nowhere, d, [])
  | none, none, next :: rest => do
    let (found, next, rest) ← find? name next rest
    match found with
    | .register r =>
      let (found, d) ← addUpvalue? d name (.register r)
      some (found, d, { next with locals := markCaptured name next.locals } :: rest)
    | .upvalue index =>
      let (found, d) ← addUpvalue? d name (.upvalue index)
      some (found, d, next :: rest)
    | found => some (found, d, next :: rest)

def find (name : String) : Build Found := do
  let c ← get
  let (found, draft, outer) ← liftM (find? name c.draft c.outer)
  set { c with draft, outer }
  pure found

/-! ## Blocks -/

/-- Ends the life of the variables that were declared after the first `count` ones. -/
def leave (count : Nat) : Build Unit := do
  let d ← draft
  let added := d.locals.length - count
  change fun d ↦ { d with locals := d.locals.drop added }
  let level := (← draft).level
  if (d.locals.take added).any (·.captured) then discard (emit (.close level))
  change fun d ↦ { d with free := level }

def block (body : Build Unit) : Build Unit := do
  let d ← draft
  body
  leave d.locals.length
  change fun inner ↦ { inner with sheltered := d.sheltered }

/-- Compiles a loop, at the end of which the jumps that leave it arrive. -/
def loop (body : Build Unit) : Build Unit := do
  change fun d ↦ { d with loops := ⟨d.level, []⟩ :: d.loops }
  block body
  let exits := ((← draft).loops.head?.map Loop.exits).getD []
  change fun d ↦ { d with loops := d.loops.drop 1 }
  directHere exits

/-- Compiles a jump that leaves the innermost loop. -/
def exit : Build Unit := do
  match (← draft).loops with
  | [] => failure
  | loop :: rest =>
    discard (emit (.close loop.level))
    let jump ← emit (.jump 0)
    change fun d ↦ { d with loops := { loop with exits := jump :: loop.exits } :: rest }

end Build

end Reactor.Script

import Reactor.Script.Item

/-!
# Instructions of scripts

A function is compiled to instructions for a machine with registers. A register holds a value while
a call of the function runs: the local variables are in registers, and so are the operands and the
results that wait for their use. An instruction reads its registers when it is run, so an operand
that is a local variable has the value that the variable has then.

A jump goes to an instruction by its position.
-/

namespace Reactor.Script

/-- What an instruction reads. -/
inductive Operand where
  | register (r : Nat)
  /-- A variable of a function further out. -/
  | upvalue (index : Nat)
  | value (item : Item)

/-- A number of values that is fixed, or all values up to the top of the stack. -/
abbrev Count := Option Nat

inductive Instruction where
  | move (target source : Nat)
  | load (target : Nat) (item : Item)
  /-- Sets some registers to nil. -/
  | clear (first count : Nat)
  | readUpvalue (target index : Nat)
  | writeUpvalue (index source : Nat)
  | index (target : Nat) (table key : Operand)
  | setIndex (table key new : Operand)
  /-- Looks up a method, and puts the object behind it as its first argument. -/
  | method (target object : Nat) (key : Operand)
  | newTable (target itemCount nodeCount : Nat)
  /-- Stores the values behind a table as its items after the first `offset`. -/
  | setItems (table : Nat) (count : Count) (offset : Nat)
  | arithmetic (op : Arithmetic) (target : Nat) (a b : Operand)
  /-- The difference of a register and a small integer, computed as a sum. -/
  | reduce (target source : Nat) (n : Int64)
  | unary (op : UnaryOp) (target source : Nat)
  /-- Joins the values of some registers in the first one. -/
  | concat (first count : Nat)
  | jump (destination : Nat)
  /-- Jumps if the truth of a value is as expected. -/
  | test (source : Nat) (expected : Bool) (destination : Nat)
  /-- Jumps if the truth of a value is as expected, and keeps the value then. -/
  | testSet (target : Option Nat) (source : Nat) (expected : Bool) (destination : Nat)
  /-- Jumps if a comparison is as expected. -/
  | compare (relation : Relation) (a b : Operand) (expected : Bool) (destination : Nat)
  | call (function : Nat) (arguments results : Count)
  /-- Calls a function in the place of the one that runs. -/
  | tailCall (function : Nat) (arguments : Count)
  | result (first : Nat) (count : Count)
  /-- Starts a loop over numbers, or leaves it before the first round. -/
  | countStart (base destination : Nat)
  | countNext (base destination : Nat)
  /-- Starts a loop over the values of a function. -/
  | eachStart (base destination : Nat)
  | eachCall (base count : Nat)
  | eachNext (base destination : Nat)
  /-- Makes a function, where functions are known by their position in the program. -/
  | closure (target function : Nat)
  /-- The further arguments of the function. -/
  | varargs (target : Nat) (count : Count)
  /-- Ends the life of the registers from one on, for the functions that share them. -/
  | close (first : Nat)
  /-- Requires that the value of a register can be closed. -/
  | requireClosable (source : Nat)

namespace Instruction

def into (target : Nat) : Instruction → Instruction
  | move _ source => move target source
  | load _ item => load target item
  | readUpvalue _ i => readUpvalue target i
  | index _ table key => index target table key
  | arithmetic op _ a b => arithmetic op target a b
  | reduce _ source n => reduce target source n
  | unary op _ source => unary op target source
  | closure _ function => closure target function
  | varargs _ count => varargs target count
  | instruction => instruction

def withResults (count : Count) : Instruction → Instruction
  | call function arguments _ => call function arguments count
  | varargs target _ => varargs target count
  | instruction => instruction

def goingTo (destination : Nat) : Instruction → Instruction
  | jump _ => jump destination
  | test source expected _ => test source expected destination
  | testSet target source expected _ => testSet target source expected destination
  | compare relation a b expected _ => compare relation a b expected destination
  | countStart base _ => countStart base destination
  | eachStart base _ => eachStart base destination
  | instruction => instruction

def withRoom (itemCount nodeCount : Nat) : Instruction → Instruction
  | newTable target _ _ => newTable target itemCount nodeCount
  | instruction => instruction

def negated : Instruction → Instruction
  | compare relation a b expected destination => compare relation a b (!expected) destination
  | instruction => instruction

def withoutValue : Instruction → Instruction
  | testSet _ source expected destination => test source expected destination
  | instruction => instruction

/-- A jump that keeps its value, if it has one, in a register. There is no need to move it to the
register where it is. -/
def keepingIn (target : Nat) : Instruction → Instruction
  | testSet _ source expected destination =>
    if source = target then test source expected destination
    else testSet (some target) source expected destination
  | instruction => instruction

def keepsValue : Instruction → Bool
  | testSet _ _ _ _ => true
  | _ => false

def asTailCall : Instruction → Instruction
  | call function arguments _ => tailCall function arguments
  | instruction => instruction

end Instruction

/-- Where a variable of a function further out is found when a function is made. -/
inductive Capture where
  /-- In a register of the function around it. -/
  | register (r : Nat)
  /-- Among the variables that the function around it has from further out. -/
  | upvalue (index : Nat)
  deriving DecidableEq

/-- A compiled function. -/
structure Prototype where
  instructions : Array Instruction
  parameters : Nat
  variadic : Bool
  /-- The number of its registers. -/
  size : Nat
  captures : Array Capture

end Reactor.Script

import Reactor.Script.Code
import Reactor.Script.Table
import Reactor.Workspace.FileSystem

/-!
# The memory of a running script

What a script can change: its stack, its tables, the variables that its functions share, the files
that it has opened. A step of a script takes the memory to a new one, or fails; why it fails is not
kept, since nothing in a script can tell and its reader only learns that it failed.
-/

namespace Reactor.Script

/-- A variable that functions share. -/
inductive Cell where
  /-- The variable is still in its place on the stack. -/
  | onStack (slot : Nat)
  | apart (item : Item)
  deriving Inhabited

/-- A function with the variables from further out that it uses. -/
structure Closure where
  /-- The position of the function in the program. -/
  prototype : Nat
  cells : Array Nat

inductive OpenFile where
  | closed
  /-- The bytes that are not read yet. -/
  | reading (rest : Bytes)
  /-- What cannot be read from, and why, as a message and a number. -/
  | unreadable (message : String) (number : Nat)
  deriving Inhabited

structure Memory where
  fileSystem : FileSystem
  program : Array Prototype
  stack : Array Item
  /-- Where the stack is free for a call that an operation makes. -/
  ceiling : Nat
  tables : Array Table
  closures : Array Closure
  cells : Array Cell
  /-- The cells on the stack with their slots, the highest one first. -/
  shared : List (Nat × Nat)
  files : Array OpenFile
  /-- The number of threads that were created. -/
  threads : Nat

abbrev Run := StateT Memory Option

namespace Memory

def globals : Nat :=
  0

def strings : Nat :=
  1

def stringOperations : Nat :=
  2

def fileMethods : Nat :=
  3

def fileOperations : Nat :=
  4

/-! ## Tables -/

def table (id : Nat) : Run Table := do
  liftM (← get).tables[id]?

def changeTable (id : Nat) (f : Table → Table) : Run Unit :=
  modify fun m ↦ { m with tables := m.tables.modify id f }

def newTable (t : Table) : Run Item :=
  modifyGet fun m ↦ (.table m.tables.size, { m with tables := m.tables.push t })

def rawGet (id : Nat) (key : Item) : Run Item := do
  let t ← table id
  if t.limit ≠ t.items.size then changeTable id (·.touch key)
  pure (t.get key)

/-- Changes the value at a key of a table, unless the key cannot be one. -/
def rawSet (id : Nat) (key value : Item) : Run Unit :=
  if key.asKey?.isNone then failure else changeTable id (·.set key value)

def rawLength (id : Nat) : Run Nat := do
  let t ← table id
  let (length, limit) := t.measure
  if t.limit ≠ limit then changeTable id fun t ↦ { t with limit }
  pure length

def metatable? (item : Item) : Run (Option Nat) := do
  match item with
  | .table id => pure (← table id).metatable
  | .string _ => pure (some stringOperations)
  | .file _ => pure (some fileOperations)
  | _ => pure none

/-- What the metatable of a value has for an event, nil if there is none. -/
def handler (item event : Item) : Run Item := do
  match ← metatable? item with
  | some id => rawGet id event
  | none => pure .nil

/-! ## The stack -/

def maxStack : Nat :=
  1000000

def slot (index : Nat) : Run Item := do
  pure ((← get).stack[index]?.getD .nil)

def setSlot (index : Nat) (item : Item) : Run Unit :=
  modify fun m ↦ { m with stack := m.stack.setIfInBounds index item }

/-- Makes sure that the stack has some slots, unless they are too many. -/
def reach (size : Nat) : Run Unit :=
  if maxStack < size then failure
  else modify fun m ↦
    if m.stack.size < size then
      { m with stack := m.stack ++ Array.replicate (size - m.stack.size) .nil }
    else m

def slots (first count : Nat) : Run (List Item) := do
  let stack := (← get).stack
  pure ((List.range count).map fun i ↦ stack[first + i]?.getD .nil)

def setSlots (first : Nat) (items : List Item) : Run Unit :=
  modify fun m ↦
    { m with
      stack := (items.zipIdx first).foldl (fun stack (item, i) ↦ stack.setIfInBounds i item)
        m.stack }

def clearSlots (first count : Nat) : Run Unit :=
  modify fun m ↦
    { m with
      stack := count.fold (fun i _ stack ↦ stack.setIfInBounds (first + i) .nil) m.stack }

def setCeiling (ceiling : Nat) : Run Unit :=
  modify fun m ↦ { m with ceiling }

/-! ## Functions -/

def newClosure (closure : Closure) : Run Item :=
  modifyGet fun m ↦ (.closure m.closures.size, { m with closures := m.closures.push closure })

def closure (id : Nat) : Run Closure := do
  liftM (← get).closures[id]?

def prototype (index : Nat) : Run Prototype := do
  liftM (← get).program[index]?

def cell (id : Nat) : Run Item := do
  match (← get).cells[id]? with
  | some (.onStack index) => slot index
  | some (.apart item) => pure item
  | none => failure

def setCell (id : Nat) (item : Item) : Run Unit := do
  match (← get).cells[id]? with
  | some (.onStack index) => setSlot index item
  | _ => modify fun m ↦ { m with cells := m.cells.setIfInBounds id (.apart item) }

/-- Shared variables with a further one, at its place in their order. -/
def insertShared (index id : Nat) : List (Nat × Nat) → List (Nat × Nat)
  | [] => [(index, id)]
  | (i, other) :: rest =>
    if i < index then (index, id) :: (i, other) :: rest
    else (i, other) :: insertShared index id rest

/-- The cell of a variable on the stack, a new one if no function shares the variable yet. -/
def share (index : Nat) : Run Nat := do
  let m ← get
  match m.shared.find? (·.1 = index) with
  | some (_, id) => pure id
  | none =>
    let id := m.cells.size
    modify fun m ↦
      { m with cells := m.cells.push (.onStack index), shared := insertShared index id m.shared }
    pure id

/-- Takes the shared variables in the slots from one on off the stack. -/
def unshare (first : Nat) : List (Nat × Nat) → Run Unit
  | [] => modify fun m ↦ { m with shared := [] }
  | (index, id) :: rest => do
    if index < first then modify fun m ↦ { m with shared := (index, id) :: rest }
    else
      let item ← slot index
      modify fun m ↦ { m with cells := m.cells.setIfInBounds id (.apart item) }
      unshare first rest

def close (first : Nat) : Run Unit := do
  match (← get).shared with
  | [] => pure ()
  | (index, id) :: rest => if index < first then pure () else unshare first ((index, id) :: rest)

def newThread : Run Item :=
  modifyGet fun m ↦ (.thread m.threads, { m with threads := m.threads + 1 })

/-! ## Files -/

def newFile (f : OpenFile) : Run Item :=
  modifyGet fun m ↦ (.file m.files.size, { m with files := m.files.push f })

def file (id : Nat) : Run OpenFile := do
  liftM (← get).files[id]?

def putFile (id : Nat) (f : OpenFile) : Run Unit :=
  modify fun m ↦ { m with files := m.files.setIfInBounds id f }

end Memory

end Reactor.Script

import Reactor.Script.Compile.Operator
import Reactor.Script.Program

/-!
# From programs to instructions

Every expression becomes a pending one, and every statement becomes instructions. The names of a
program are looked up on the way: what is no variable is a key of the table of global variables,
which is itself a variable.
-/

namespace Reactor.Script.Compile

open Build Pending

/-- The name of the variable that holds the table of global variables. -/
def environmentName : String :=
  "_ENV"

def variablePlace : Found → Option Place
  | .register r => some (.variable r)
  | .upvalue index => some (.upvalue index)
  | .constant item => some (.value item)
  | .nowhere => none

def named (name : String) : Build Pending := do
  match variablePlace (← find name) with
  | some place => pure (ofPlace place)
  | none =>
    let environment ← liftM (variablePlace (← find environmentName))
    let table ← (ofPlace environment).toTable
    indexed table (ofPlace (.value (.ofText name)))

/-- A single value of an expression that has any number of values. -/
def oneResult (p : Pending) : Build Pending :=
  if p.isOpen then p.read else pure p

def freeFrom (r : Nat) : Build Unit :=
  change fun d ↦ { d with free := r }

/-- Ends a list of values, of which the last one is pending. The result is the number of values
behind a register, unless it is open. -/
def closeList (last : Pending) (base : Nat) : Build Count := do
  if last.isOpen then
    discard (last.withResults none)
    pure none
  else
    match last.place with
    | .nothing => pure ()
    | _ => discard last.toNextRegister
    pure (some ((← draft).free - (base + 1)))

/-- Makes `wanted` values out of `given` ones, of which the last one is pending. -/
def adjust (wanted given : Nat) (last : Pending) : Build Unit := do
  if last.isOpen then discard (last.withResults (some (wanted + 1 - given)))
  else
    match last.place with
    | .nothing => pure ()
    | _ => discard last.toNextRegister
    if given < wanted then discard (emit (.clear (← draft).free (wanted - given)))
  if given < wanted then reserve (wanted - given)
  else change fun d ↦ { d with free := d.free - (given - wanted) }

/-! ## Tables -/

/-- A table constructor up to some field. -/
structure Constructor where
  /-- The register of the table. -/
  table : Nat
  /-- The number of items that are stored. -/
  stored : Nat
  /-- The number of items that are in registers, with the pending one. -/
  waiting : Nat
  /-- The last item, which may turn out to have any number of values. -/
  last : Pending
  /-- The number of other entries. -/
  entries : Nat

namespace Constructor

/-- The most items that wait in registers. -/
def maxWaiting : Nat :=
  50

def store (c : Constructor) (count : Count) : Build Unit := do
  discard (emit (.setItems c.table count c.stored))
  freeFrom (c.table + 1)

/-- The constructor before a further field, with the last item in a register. -/
def advance (c : Constructor) : Build Constructor := do
  match c.last.place with
  | .nothing => pure c
  | _ =>
    discard c.last.toNextRegister
    let c := { c with last := ofPlace .nothing }
    if c.waiting = maxWaiting then
      c.store (some c.waiting)
      pure { c with stored := c.stored + c.waiting, waiting := 0 }
    else pure c

/-- The number of items that the table has room for. Items that are not counted in advance get
their room later. -/
def finish (c : Constructor) : Build Nat := do
  if c.waiting = 0 then pure c.stored
  else if c.last.isOpen then
    discard (c.last.withResults none)
    c.store none
    pure (c.stored + c.waiting - 1)
  else
    match c.last.place with
    | .nothing => pure ()
    | _ => discard c.last.toNextRegister
    c.store (some c.waiting)
    pure (c.stored + c.waiting)

end Constructor

/-! ## Assignments -/

/-- A target that is not changed by an assignment to a variable that it reads: what it reads is
taken from a copy. -/
def shield (assigned : Place) (copy : Nat) : Place → Place
  | .element table key =>
    match assigned with
    | .variable r =>
      .element (if table = r then copy else table) (if key = r then copy else key)
    | _ => .element table key
  | .field table key =>
    match assigned with
    | .variable r => .field (if table = r then copy else table) key
    | _ => .field table key
  | .outerField index key =>
    match assigned with
    | .upvalue i => if index = i then .field copy key else .outerField index key
    | _ => .outerField index key
  | place => place

def reads (assigned : Place) : Place → Bool
  | .element table key =>
    match assigned with
    | .variable r => table = r || key = r
    | _ => false
  | .field table _ =>
    match assigned with
    | .variable r => table = r
    | _ => false
  | .outerField index _ =>
    match assigned with
    | .upvalue i => index = i
    | _ => false
  | _ => false

/-- The targets before a further one of the same assignment, which may be a variable that they
read. -/
def shielded (targets : List Place) (assigned : Place) : Build (List Place) := do
  if targets.any (reads assigned) then
    let copy := (← draft).free
    match assigned with
    | .variable r => discard (emit (.move copy r))
    | .upvalue index => discard (emit (.readUpvalue copy index))
    | _ => pure ()
    reserve 1
    pure (targets.map (shield assigned copy))
  else pure targets

/-- Assigns the values in the last registers to targets, the last one first. -/
def storeAll (targets : List Place) : Build Unit :=
  targets.forM fun target ↦ do
    (ofPlace (.register ((← draft).free - 1))).store target

/-! ## Local variables -/

/-- The value of the last of some variables, if it is a constant that is known in advance. -/
def knownConstant? (names : List (String × Attribute)) (given : Nat) (last : Pending) :
    Option Item :=
  match names.getLast?, last.place, last.hasJumps with
  | some (_, .const), .value item, false => if names.length = given then some item else none
  | _, _, _ => none

def declareLocals (names : List (String × Attribute)) (given : Nat) (last : Pending) :
    Build Unit := do
  let level := (← draft).level
  match knownConstant? names given last with
  | some item =>
    declare (names.dropLast.map (·.1))
    declareConstant ((names.getLast?.map (·.1)).getD "") item
  | none =>
    adjust names.length given last
    declare (names.map (·.1))
  match names.findIdx? (·.2 = .close) with
  | some index =>
    change fun d ↦ { d with sheltered := true }
    discard (emit (.requireClosable (level + index)))
  | none => pure ()

/-! ## Functions -/

def openFunction (parameters : List String) : Build Unit := do
  modify fun c ↦ { c with draft := .empty, outer := c.draft :: c.outer }
  allow parameters.length
  declare parameters
  reserve parameters.length

/-- Ends the function that is compiled. Its position in the program is returned. -/
def closeFunction (parameters : Nat) (variadic : Bool) : Build Nat := do
  discard (emit (.result (← draft).level (some 0)))
  let c ← get
  let d := c.draft
  let prototype : Prototype :=
    ⟨d.instructions, parameters, variadic, d.size, d.upvalues.map (·.2)⟩
  let draft := c.outer.head?.getD .empty
  set { c with draft, outer := c.outer.drop 1, finished := c.finished.push prototype }
  pure c.finished.size

/-! ## Loops -/

/-- A loop whose condition, a list of jumps that are taken if it is false, comes first. -/
def whileLoop (condition : Build (List Nat)) (body : Build Unit) : Build Unit := do
  let start ← here
  let exits ← condition
  loop do
    block body
    discard (emit (.jump start))
  directHere exits

/-- A loop whose condition, a list of jumps that are taken if it is false, comes last and knows the
variables of the body. -/
def repeatLoop (body : Build Unit) (condition : Build (List Nat)) : Build Unit := do
  let start ← here
  loop do
    let d ← draft
    body
    let repeats ← condition
    let inner ← draft
    let added := inner.locals.take (inner.locals.length - d.locals.length)
    leave d.locals.length
    change fun inner ↦ { inner with sheltered := d.sheltered }
    if added.any (·.captured) then
      let past ← emit (.jump 0)
      directHere repeats
      discard (emit (.close (← draft).level))
      discard (emit (.jump start))
      directHere [past]
    else direct repeats start

/-- The names of variables that cannot be named in a program. -/
def hidden (count : Nat) : List String :=
  List.replicate count "(for state)"

/-- A loop over numbers, whose start, limit and step come in three registers. -/
def countLoop (x : String) (header body : Build Unit) : Build Unit :=
  loop do
    let base := (← draft).free
    allow 4
    header
    declare (hidden 3)
    let start ← emit (.countStart base 0)
    block do
      declare [x]
      reserve 1
      block body
    let next ← here
    discard (emit (.countNext base (start + 1)))
    revise start (Instruction.goingTo (next + 1))

/-- A loop over the values of a function. The function, its object, its last value and a value to
close come in four registers. -/
def eachLoop (names : List String) (header body : Build Unit) : Build Unit :=
  loop do
    let base := (← draft).free
    allow (4 + names.length)
    header
    declare (hidden 4)
    change fun d ↦ { d with sheltered := true }
    require 3
    let start ← emit (.eachStart base 0)
    block do
      declare names
      reserve names.length
      block body
    revise start (Instruction.goingTo (← here))
    discard (emit (.eachCall base names.length))
    discard (emit (.eachNext base (start + 1)))

/-! ## Expressions and statements -/

mutual

def expression : Expr → Build Pending
  | .nil => pure (ofPlace (.value .nil))
  | .bool value => pure (ofPlace (.value (.bool value)))
  | .number n => pure (ofPlace (.value (.number n)))
  | .string bytes => pure (ofPlace (.value (.ofBytes bytes)))
  | .varargs => do pure (ofPlace (.varargs (← emit (.varargs 0 (some 1)))))
  | .function f => do (ofPlace (.result (← emit (.closure 0 (← function f))))).toNextRegister
  | .name x => named x
  | .index table key => do
    let table ← (← expression table).toTable
    indexed table (← (← expression key).toValue)
  | .call f arguments => do
    discard (← expression f).toNextRegister
    let base := (← draft).free - 1
    let count ← closeList (← expressions arguments) base
    let position ← emit (.call base count (some 1))
    freeFrom (base + 1)
    pure (ofPlace (.call position base))
  | .method object name arguments => do
    let base ← (← expression object).toMethod (.ofText name)
    let count ← closeList (← expressions arguments) base
    let position ← emit (.call base count (some 1))
    freeFrom (base + 1)
    pure (ofPlace (.call position base))
  | .single e => do (← expression e).read
  | .unary op e => do unary op (← expression e)
  | .arithmetic op a b => do
    let a ← (← expression a).arithmeticOperand
    arithmetic op a (← expression b)
  | .relation op a b => do
    let a ← (← expression a).relationOperand op
    relation op a (← expression b)
  | .concat a b => do
    let a ← (← (← expression a).read).toNextRegister
    concat a (← expression b)
  | .and a b => do
    let a ← (← expression a).jumpIfFalse
    let b ← (← expression b).read
    pure { b with onFalse := a.onFalse ++ b.onFalse }
  | .or a b => do
    let a ← (← expression a).jumpIfTrue
    let b ← (← expression b).read
    pure { b with onTrue := a.onTrue ++ b.onTrue }
  | .table fields => do
    let table := (← draft).free
    let position ← emit (.newTable table 0 0)
    reserve 1
    let c ← constructor fields ⟨table, 0, 0, ofPlace .nothing, 0⟩
    revise position (Instruction.withRoom (← c.finish) c.entries)
    pure (ofPlace (.register table))

def expressions : List Expr → Build Pending
  | [] => pure (ofPlace .nothing)
  | e :: rest => do
    let p ← expression e
    if rest.isEmpty then pure p
    else
      discard p.toNextRegister
      expressions rest

def constructor : List Field → Constructor → Build Constructor
  | [], c => pure c
  | .item e :: rest, c => do
    let c ← c.advance
    let last ← expression e
    constructor rest { c with waiting := c.waiting + 1, last }
  | .entry key e :: rest, c => do
    let c ← c.advance
    let base := (← draft).free
    let key ← (← expression key).toValue
    let target ← indexed (ofPlace (.register c.table)) key
    (← expression e).store target.place
    freeFrom base
    constructor rest { c with entries := c.entries + 1 }

def function : Function → Build Nat
  | .mk parameters variadic body => do
    openFunction parameters
    statements body
    closeFunction parameters.length variadic

/-- Statements in a row. No register is in use between them, except those of the variables. -/
def statements : List Statement → Build Unit
  | [] => pure ()
  | s :: rest => do
    statement s
    freeFrom (← draft).level
    statements rest

def targets : List Expr → List Place → Build (List Place)
  | [], done => pure done
  | e :: rest, done => do
    let place := (← expression e).place
    targets rest (place :: (← shielded done place))

/-- The cases of a branch. The jumps to its end are returned. -/
def cases : List (Expr × List Statement) → Build (List Nat)
  | [] => pure []
  | (condition, body) :: rest => do
    let p ← (← expression condition).jumpIfFalse
    block (statements body)
    let past ← emit (.jump 0)
    directHere p.onFalse
    pure (past :: (← cases rest))

def statement : Statement → Build Unit
  | .locals names values => do
    allow names.length
    declareLocals names values.length (← expressions values)
  | .localFunction name f => do
    allow 1
    declare [name]
    discard (ofPlace (.result (← emit (.closure 0 (← function f))))).toNextRegister
  | .assign places values => do
    let places ← targets places []
    let last ← expressions values
    match places with
    | [] => failure
    | place :: rest =>
      if places.length = values.length then
        (← oneResult last).store place
        storeAll rest
      else
        adjust places.length values.length last
        storeAll places
  | .call e => do
    match (← expression e).place with
    | .call position _ => revise position (Instruction.withResults (some 0))
    | _ => failure
  | .block body => block (statements body)
  | .loop condition body =>
    whileLoop (do pure (← (← expression condition).jumpIfFalse).onFalse) (statements body)
  | .repeatUntil body condition =>
    repeatLoop (statements body) (do pure (← (← expression condition).jumpIfFalse).onFalse)
  | .branch conditions otherwise => do
    let exits ← cases conditions
    block (statements otherwise)
    directHere exits
  | .count x first last none body =>
    countLoop x
      (do
        discard (← expression first).toNextRegister
        discard (← expression last).toNextRegister
        discard (ofPlace (.value (.ofInt 1))).toNextRegister)
      (statements body)
  | .count x first last (some step) body =>
    countLoop x
      (do
        discard (← expression first).toNextRegister
        discard (← expression last).toNextRegister
        discard (← expression step).toNextRegister)
      (statements body)
  | .forEach names values body =>
    eachLoop names (do adjust 4 values.length (← expressions values)) (statements body)
  | .result values => do
    let d ← draft
    let last ← expressions values
    if last.isOpen then
      discard (last.withResults none)
      match last.place with
      | .call position _ =>
        if values.length = 1 ∧ ¬d.sheltered then revise position Instruction.asTailCall
      | _ => pure ()
      discard (emit (.result d.level none))
    else if values.length = 1 then
      discard (emit (.result (← last.toAnyRegister).2 (some 1)))
    else
      match last.place with
      | .nothing => pure ()
      | _ => discard last.toNextRegister
      discard (emit (.result d.level (some values.length)))
  | .leave => exit

end

/-- The functions of a program. The last one is the program itself, which takes further arguments
and finds the table of global variables further out. -/
def program? (body : List Statement) : Option (Array Prototype) := do
  let main := { Draft.empty with upvalues := #[(environmentName, .register 0)] }
  let build : Build Unit := do
    statements body
    discard (closeFunction 0 true)
  let (_, c) ← build.run ⟨main, [], .empty, #[]⟩
  some c.finished

end Reactor.Script.Compile

import Reactor.Script.Compile.Draft

/-!
# Expressions under construction

An expression is not computed into a register before it is known where its value is needed: a
constant may become an operand, a variable may be read in its own register, and a condition may
become a jump. Until then it is pending. The jumps of a pending expression decide it without its
last part: those in `onTrue` if it is true, and those in `onFalse` if it is false.
-/

namespace Reactor.Script

/-- Where the value of an expression is. -/
inductive Place where
  /-- There is no value. -/
  | nothing
  | value (item : Item)
  /-- A constant that has its index. -/
  | constant (item : Item) (index : Nat)
  | register (r : Nat)
  /-- A local variable. -/
  | variable (r : Nat)
  | upvalue (index : Nat)
  /-- The value at a key, where both the table and the key are in registers. -/
  | element (table key : Nat)
  /-- The value at a known key of a table in a register. -/
  | field (table : Nat) (key : Item)
  /-- The value at a known key of a table that is a variable from further out. -/
  | outerField (upvalue : Nat) (key : Item)
  /-- The outcome of a comparison, which is a jump. -/
  | comparison (position : Nat)
  /-- The result of an instruction whose target is still open. -/
  | result (position : Nat)
  /-- The results of a call, the first of which is in the register of the function. -/
  | call (position function : Nat)
  /-- The further arguments of the function. -/
  | varargs (position : Nat)

/-- An expression under construction. -/
structure Pending where
  place : Place
  onTrue : List Nat
  onFalse : List Nat

namespace Pending

def ofPlace (place : Place) : Pending :=
  ⟨place, [], []⟩

def hasJumps (p : Pending) : Bool :=
  !p.onTrue.isEmpty || !p.onFalse.isEmpty

def isOpen (p : Pending) : Bool :=
  match p.place with
  | .call _ _ => true
  | .varargs _ => true
  | _ => false

def numeral? (p : Pending) : Option Number :=
  match p.place with
  | .value (.number n) => if p.hasJumps then none else some n
  | _ => none

def integer? (p : Pending) : Option Int64 :=
  match p.numeral? with
  | some (.int n) => some n
  | _ => none

/-- Whether an integer is small enough to be a part of an instruction. -/
def isSmall (n : Int64) : Bool :=
  -127 ≤ n && n ≤ 128

/-- The number that the expression is known to be if it is equal to a small integer. -/
def smallNumeral? (p : Pending) : Option Number :=
  p.numeral?.filter fun n ↦ n.toInt?.any isSmall

def release (p : Pending) : Build Unit :=
  match p.place with
  | .register r => Build.release r
  | _ => pure ()

/-- Whether an integer or a float that is equal to one can be loaded without a constant. -/
def isImmediate (n : Number) : Bool :=
  n.toInt?.any fun n ↦ -65535 ≤ n && n ≤ 65536

/-- Reserves the index of a constant that has to be loaded from the constants. -/
def useConstant (item : Item) : Build Unit := do
  match item with
  | .string _ => discard (Build.constantIndex item)
  | .number n => if isImmediate n then pure () else discard (Build.constantIndex item)
  | _ => pure ()

def withResults (p : Pending) (count : Count) : Build Pending := do
  match p.place with
  | .call position _ =>
    Build.revise position (Instruction.withResults count)
    pure p
  | .varargs position =>
    let target := (← Build.draft).free
    Build.revise position fun i ↦ (i.withResults count).into target
    Build.reserve 1
    pure p
  | _ => pure p

/-- The expression as one value that is not a variable any more. -/
def read (p : Pending) : Build Pending := do
  let reading (instruction : Instruction) : Build Pending := do
    pure { p with place := .result (← Build.emit instruction) }
  match p.place with
  | .variable r => pure { p with place := .register r }
  | .upvalue index => reading (.readUpvalue 0 index)
  | .element table key =>
    Build.release (max table key)
    Build.release (min table key)
    reading (.index 0 (.register table) (.register key))
  | .field table key =>
    Build.release table
    reading (.index 0 (.register table) (.value key))
  | .outerField upvalue key => reading (.index 0 (.upvalue upvalue) (.value key))
  | .call _ function => pure { p with place := .register function }
  | .varargs position =>
    Build.revise position (Instruction.withResults (some 1))
    pure { p with place := .result position }
  | _ => pure p

/-- Puts the value into a register, except that a comparison stays a jump. -/
def put (p : Pending) (target : Nat) : Build Pending := do
  let p ← p.read
  let done : Pending := { p with place := .register target }
  match p.place with
  | .value item =>
    useConstant item
    discard (Build.emit (.load target item))
    pure done
  | .constant item _ =>
    discard (Build.emit (.load target item))
    pure done
  | .result position =>
    Build.revise position (Instruction.into target)
    pure done
  | .register r =>
    if r ≠ target then discard (Build.emit (.move target r))
    pure done
  | _ => pure p

def putAnywhere (p : Pending) : Build Pending := do
  match p.place with
  | .register _ => pure p
  | _ =>
    Build.reserve 1
    p.put ((← Build.draft).free - 1)

/-- Directs the jumps that decide the expression: those that keep a value put it into a register
and go to `done`, the others go to `loading`. -/
def settle (jumps : List Nat) (target done loading : Nat) : Build Unit :=
  jumps.forM fun jump ↦ Build.revise jump fun i ↦
    if i.keepsValue then (i.keepingIn target).goingTo done else i.goingTo loading

/-- Puts the value into a register, whichever way the expression is decided. -/
def toRegister (p : Pending) (target : Nat) : Build Pending := do
  let p ← p.put target
  let (onTrue, isComparison) :=
    match p.place with
    | .comparison position => (position :: p.onTrue, true)
    | _ => (p.onTrue, false)
  if ¬onTrue.isEmpty ∨ ¬p.onFalse.isEmpty then
    let instructions := (← Build.draft).instructions
    let keeps (jump : Nat) : Bool := (instructions[jump]?).any Instruction.keepsValue
    let needsLoad := (onTrue ++ p.onFalse).any fun jump ↦ !keeps jump
    let (loadFalse, loadTrue) ←
      if needsLoad then do
        let past ← if isComparison then pure [] else (fun jump ↦ [jump]) <$> Build.emit (.jump 0)
        let loadFalse ← Build.here
        discard (Build.emit (.load target (.bool false)))
        discard (Build.emit (.jump (loadFalse + 3)))
        let loadTrue ← Build.here
        discard (Build.emit (.load target (.bool true)))
        Build.directHere past
        pure (loadFalse, loadTrue)
      else pure (0, 0)
    let done ← Build.here
    settle p.onFalse target done loadFalse
    settle onTrue target done loadTrue
  pure (ofPlace (.register target))

def toNextRegister (p : Pending) : Build Pending := do
  let p ← p.read
  p.release
  Build.reserve 1
  p.toRegister ((← Build.draft).free - 1)

/-- Puts the value into some register, which is returned too. The value of a variable stays where
it is. -/
def toAnyRegister (p : Pending) : Build (Pending × Nat) := do
  let p ← p.read
  let next : Build (Pending × Nat) := do
    let p ← p.toNextRegister
    pure (p, (← Build.draft).free - 1)
  match p.place with
  | .register r =>
    if ¬p.hasJumps then pure (p, r)
    else if (← Build.draft).level ≤ r then pure (← p.toRegister r, r)
    else next
  | _ => next

/-- Puts the value into some register unless it is a variable from further out. -/
def toTable (p : Pending) : Build Pending := do
  match p.place, p.hasJumps with
  | .upvalue _, false => pure p
  | _, _ => pure (← p.toAnyRegister).1

/-- Puts the value into a register if jumps decide it. -/
def toValue (p : Pending) : Build Pending := do
  match p.place, p.hasJumps with
  | .comparison _, _ => pure (← p.toAnyRegister).1
  | _, true => pure (← p.toAnyRegister).1
  | _, false => p.read

/-- The expression as a constant operand, if it is a constant with a small index. -/
def toConstant? (p : Pending) : Build (Option (Pending × Item)) := do
  let known : Option Item :=
    match p.place with
    | .value item => some item
    | .constant item _ => some item
    | _ => none
  match known, p.hasJumps with
  | some item, false =>
    let index ←
      match p.place with
      | .constant _ index => pure index
      | _ => Build.constantIndex item
    pure (if index ≤ Draft.maxOperand then some (ofPlace (.constant item index), item) else none)
  | _, _ => pure none

def toOperand (p : Pending) : Build (Pending × Operand) := do
  match ← p.toConstant? with
  | some (p, item) => pure (p, .value item)
  | none =>
    let (p, r) ← p.toAnyRegister
    pure (p, .register r)

/-! ## Variables and tables -/

/-- The most bytes of a key that is a part of an instruction. -/
def maxKeyBytes : Nat :=
  40

/-- The value at a key of a table that is in a register, or that is a variable from further out. -/
def indexed (table key : Pending) : Build Pending := do
  let key ←
    match key.place with
    | .value (.string bytes) => do
      pure { key with place := .constant (.string bytes) (← Build.constantIndex (.string bytes)) }
    | _ => pure key
  let name? : Option Item :=
    match key.place, key.hasJumps with
    | .constant (.string bytes) index, false =>
      if index ≤ Draft.maxOperand ∧ bytes.size ≤ maxKeyBytes then some (.string bytes) else none
    | _, _ => none
  let table ←
    match table.place, name? with
    | .upvalue _, none => pure (← table.toAnyRegister).1
    | _, _ => pure table
  let inRegister (r : Nat) : Build Pending := do
    match name?, key.integer? with
    | some name, _ => pure (ofPlace (.field r name))
    | none, some n =>
      if 0 ≤ n ∧ n ≤ 255 then pure (ofPlace (.field r (.number (.int n))))
      else pure (ofPlace (.element r (← key.toAnyRegister).2))
    | none, none => pure (ofPlace (.element r (← key.toAnyRegister).2))
  match table.place, name? with
  | .upvalue index, some name => pure (ofPlace (.outerField index name))
  | .variable r, _ => inRegister r
  | .register r, _ => inRegister r
  | _, _ => failure

/-- Assigns the value to a variable or to a key of a table. -/
def store (target : Place) (p : Pending) : Build Unit := do
  let setting (table key : Operand) : Build Unit := do
    let (p, new) ← p.toOperand
    discard (Build.emit (.setIndex table key new))
    p.release
  match target with
  | .variable r =>
    p.release
    discard (p.toRegister r)
  | .upvalue index =>
    let (p, r) ← p.toAnyRegister
    discard (Build.emit (.writeUpvalue index r))
    p.release
  | .element table key => setting (.register table) (.register key)
  | .field table key => setting (.register table) (.value key)
  | .outerField upvalue key => setting (.upvalue upvalue) (.value key)
  | _ => failure

/-- Looks up a method, which makes the next two registers its function and its object. The first of
them is returned. -/
def toMethod (object : Pending) (name : Item) : Build Nat := do
  let (object, source) ← object.toAnyRegister
  object.release
  let function := (← Build.draft).free
  Build.reserve 2
  let (key, operand) ← (ofPlace (.value name)).toOperand
  discard (Build.emit (.method function source operand))
  key.release
  pure function

/-! ## Jumps -/

/-- A jump for the case that the truth of the expression is as given. -/
def jumpWhen (p : Pending) (expected : Bool) : Build Nat := do
  let plain : Build Nat := do
    let p ← p.putAnywhere
    p.release
    match p.place with
    | .register r => Build.emit (.testSet none r expected 0)
    | _ => failure
  match p.place with
  | .result position =>
    match (← Build.draft).instructions[position]? with
    | some (.unary .not _ source) =>
      Build.change fun d ↦ { d with instructions := d.instructions.pop }
      Build.emit (.test source (!expected) 0)
    | _ => plain
  | _ => plain

/-- The expression, decided by a jump if it is false. What follows is run if it is true. -/
def jumpIfFalse (p : Pending) : Build Pending := do
  let p ← p.read
  let jumps ←
    match p.place with
    | .comparison position =>
      Build.revise position Instruction.negated
      pure [position]
    | .constant _ _ => pure []
    | .value item => if item.isTrue then pure [] else do pure [← p.jumpWhen false]
    | _ => do pure [← p.jumpWhen false]
  Build.directHere p.onTrue
  pure { p with onTrue := [], onFalse := jumps ++ p.onFalse }

/-- The expression, decided by a jump if it is true. What follows is run if it is false. -/
def jumpIfTrue (p : Pending) : Build Pending := do
  let p ← p.read
  let jumps ←
    match p.place with
    | .comparison position => pure [position]
    | .value .nil => pure []
    | .value (.bool false) => pure []
    | _ => do pure [← p.jumpWhen true]
  Build.directHere p.onFalse
  pure { p with onFalse := [], onTrue := jumps ++ p.onTrue }

end Pending

end Reactor.Script

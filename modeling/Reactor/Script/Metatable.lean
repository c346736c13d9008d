import Reactor.Script.Memory

/-!
# Operations that metatables define

What an operation does to values that it is not made for is looked up in a metatable, under the name
of an event. The functions that are found there are called by `call`, a parameter of everything
here.
-/

namespace Reactor.Script

/-- How functions are called: a function and its arguments give its results. -/
abbrev Caller := Item → List Item → Run (List Item)

/-! ## Events -/

namespace Event

def index : Item := .ofText "__index"

def newIndex : Item := .ofText "__newindex"

def call : Item := .ofText "__call"

def concat : Item := .ofText "__concat"

def length : Item := .ofText "__len"

def eq : Item := .ofText "__eq"

def lt : Item := .ofText "__lt"

def le : Item := .ofText "__le"

def negate : Item := .ofText "__unm"

def bitNot : Item := .ofText "__bnot"

def text : Item := .ofText "__tostring"

def name : Item := .ofText "__name"

def close : Item := .ofText "__close"

def metatable : Item := .ofText "__metatable"

def pairs : Item := .ofText "__pairs"

def arithmetic : Arithmetic → Item
  | .add => .ofText "__add"
  | .sub => .ofText "__sub"
  | .mul => .ofText "__mul"
  | .div => .ofText "__div"
  | .floorDiv => .ofText "__idiv"
  | .mod => .ofText "__mod"
  | .power => .ofText "__pow"
  | .bitAnd => .ofText "__band"
  | .bitOr => .ofText "__bor"
  | .bitXor => .ofText "__bxor"
  | .shiftLeft => .ofText "__shl"
  | .shiftRight => .ofText "__shr"

end Event

namespace Metatable

open Memory

/-- The first of several values, nil if there is none. -/
def first (items : List Item) : Item :=
  items.head?.getD .nil

/-! ## Keys -/

/-- The value at a key if the object is a table, nil if there is none. -/
def present (object key : Item) : Run Item := do
  match object with
  | .table id => rawGet id key
  | _ => pure .nil

/-- The number of look-ups that may follow from one. -/
def maxChain : Nat :=
  2000

/-- The value at a key that is not in the object itself, from one of at most `rounds` others. -/
def absent (call : Caller) (object key : Item) : (rounds : Nat) → Run Item
  | 0 => failure
  | rounds + 1 => do
    match object, ← handler object Event.index with
    | .table _, .nil => pure .nil
    | _, .nil => failure
    | _, other =>
      if other.isFunction then pure (first (← call other [object, key]))
      else
        let found ← present other key
        if found.isNil then absent call other key rounds else pure found

def index (call : Caller) (object key : Item) : Run Item := do
  let found ← present object key
  if found.isNil then absent call object key maxChain else pure found

/-- Changes the value at a key that is not in the object itself, in one of at most `rounds`
others. -/
def setAbsent (call : Caller) (object key new : Item) : (rounds : Nat) → Run Unit
  | 0 => failure
  | rounds + 1 => do
    match object, ← handler object Event.newIndex with
    | .table id, .nil => rawSet id key new
    | _, .nil => failure
    | _, other =>
      if other.isFunction then discard (call other [object, key, new])
      else
        match other, (← present other key).isNil with
        | .table id, false => rawSet id key new
        | _, _ => setAbsent call other key new rounds

def setIndex (call : Caller) (object key new : Item) : Run Unit := do
  match object, (← present object key).isNil with
  | .table id, false => rawSet id key new
  | _, _ => setAbsent call object key new maxChain

/-! ## Operations -/

/-- What the metatable of the first operand has for an event, or else that of the second one. -/
def binaryHandler (a b event : Item) : Run Item := do
  let f ← handler a event
  if f.isNil then handler b event else pure f

/-- The result of an event on two operands, if it is defined for one of them. -/
def binaryEvent? (call : Caller) (event a b : Item) : Run (Option Item) := do
  let f ← binaryHandler a b event
  if f.isNil then pure none else pure (some (first (← call f [a, b])))

/-- The result of an event on two operands, one of which has to define it. -/
def binaryEvent (call : Caller) (event a b : Item) : Run Item := do
  liftM (← binaryEvent? call event a b)

def arithmetic (call : Caller) (op : Arithmetic) (a b : Item) : Run Item := do
  match a, b with
  | .number x, .number y => pure (.number (← liftM (op.result? x y)))
  | _, _ => binaryEvent call (Event.arithmetic op) a b

/-- The difference of a value and an integer, computed as a sum. -/
def reduce (call : Caller) (a : Item) (n : Int64) : Run Item := do
  match a with
  | .number x => pure (.number (x.add (.int (-n))))
  | _ => binaryEvent call (Event.arithmetic .sub) a (.number (.int n))

def length (call : Caller) (a : Item) : Run Item := do
  match a, ← handler a Event.length with
  | .string bytes, _ => pure (.ofInt bytes.size)
  | .table id, .nil => do pure (.ofInt (← rawLength id))
  | _, .nil => failure
  | _, f => do pure (first (← call f [a, a]))

def unary (call : Caller) (op : UnaryOp) (a : Item) : Run Item := do
  match op, a with
  | .not, _ => pure (.bool !a.isTrue)
  | .length, _ => length call a
  | .negate, .number n => pure (.number n.negate)
  | .negate, _ => binaryEvent call Event.negate a a
  | .bitNot, .number n => do pure (.number (.int (~~~(← liftM n.toInt?))))
  | .bitNot, _ => binaryEvent call Event.bitNot a a

def concat (call : Caller) (a b : Item) : Run Item := do
  match a.toBytes?, b.toBytes? with
  | some x, some y => pure (.string (x ++ y))
  | _, _ => binaryEvent call Event.concat a b

/-! ## Comparisons -/

def eq (call : Caller) (a b : Item) : Run Bool := do
  match a, b with
  | .table x, .table y =>
    if x = y then pure true
    else pure ((← binaryEvent? call Event.eq a b).any Item.isTrue)
  | _, _ => pure (a.same b)

def lt (call : Caller) (a b : Item) : Run Bool := do
  match a, b with
  | .number x, .number y => pure (x.lt y)
  | .string x, .string y => pure (Item.stringLt x y)
  | _, _ => do pure (← binaryEvent call Event.lt a b).isTrue

/-- Whether a value comes before another or is equal to it. If that is not defined, it is enough
that the other one does not come before it. -/
def le (call : Caller) (a b : Item) : Run Bool := do
  match a, b with
  | .number x, .number y => pure (x.le y)
  | .string x, .string y => pure (!Item.stringLt y x)
  | _, _ => do
    match ← binaryEvent? call Event.le a b with
    | some result => pure result.isTrue
    | none => do pure (!(← binaryEvent call Event.lt b a).isTrue)

def compare (call : Caller) (relation : Relation) (a b : Item) : Run Bool := do
  match relation with
  | .eq => eq call a b
  | .ne => do pure (!(← eq call a b))
  | .lt => lt call a b
  | .le => le call a b
  | .gt => lt call b a
  | .ge => le call b a

/-! ## Texts -/

/-- The text of a value that its metatable does not show. What has no spelling is shown as its
type. -/
def plainText (a : Item) : Run ByteArray := do
  match a with
  | .nil => pure "nil".toUTF8
  | .bool value => pure (if value then "true" else "false").toUTF8
  | .number n => pure n.text.toUTF8
  | .string bytes => pure bytes
  | .builtin _ => pure "function: builtin".toUTF8
  | _ => do
    match ← handler a Event.name with
    | .string name => pure (name ++ ": 0x0".toUTF8)
    | _ => pure (a.typeName ++ ": 0x0").toUTF8

def text (call : Caller) (a : Item) : Run ByteArray := do
  let f ← handler a Event.text
  if f.isNil then plainText a else liftM (first (← call f [a])).toBytes?

end Metatable

end Reactor.Script

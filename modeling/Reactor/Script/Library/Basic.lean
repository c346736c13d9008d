import Reactor.Script.Library.Argument

/-!
# Basic functions

The functions on values of any type.
-/

namespace Reactor.Script.Library

open Memory

def digitValue? (c : Char) : Option Nat :=
  if c.isDigit then some (c.toNat - '0'.toNat)
  else if c.isAlpha then some (c.toLower.toNat - 'a'.toNat + 10)
  else none

/-- The integer that a text spells in a base, with space around it and a sign if need be. -/
def inBase? (base : Nat) (cs : List Char) : Option Int64 := do
  let cs := ((cs.dropWhile Numeral.isSpace).reverse.dropWhile Numeral.isSpace).reverse
  let (negative, cs) :=
    match cs with
    | '-' :: rest => (true, rest)
    | '+' :: rest => (false, rest)
    | _ => (false, cs)
  if cs = [] then none
  else
    let n ← cs.foldlM (fun n c ↦ do
      let digit ← digitValue? c
      if digit < base then some (n * base + digit) else none) 0
    let n := Int64.ofInt n
    some (if negative then -n else n)

/-- A number as a number, or the number that a string spells, in a base if there is one. -/
def tonumber (arguments : List Item) : Run (List Item) := do
  let item ← anyArgument arguments 0
  if (argument arguments 1).isNil then pure [(item.toNumber?.map .number).getD .nil]
  else
    let base ← intArgument arguments 1
    match item with
    | .string bytes =>
      if base < 2 ∨ 36 < base then failure
      else
        let text := (Text.Utf8.decode bytes.toList).toOption.getD ""
        pure [((inBase? base.toNat text.toList).map (.number ∘ .int)).getD .nil]
    | _ => failure

/-- Whether a selector asks for the number of arguments. -/
def asksForCount : Item → Bool
  | .string bytes => bytes[0]? = some 35
  | _ => false

def select (arguments : List Item) : Run (List Item) := do
  let rest := arguments.drop 1
  if asksForCount (argument arguments 0) then pure [.ofInt rest.length]
  else
    let index ← intArgument arguments 0
    if 0 < index then pure (rest.drop (index.toNat - 1))
    else if index < 0 ∧ index.natAbs ≤ rest.length then
      pure (rest.drop (rest.length - index.natAbs))
    else failure

/-- Gives a table a metatable, unless its own is protected. -/
def setmetatable (arguments : List Item) : Run (List Item) := do
  let id ← tableArgument arguments 0
  let new ← anyArgument arguments 1
  if ¬(← handler (.table id) Event.metatable).isNil then failure
  else
    let metatable ←
      match new with
      | .nil => pure none
      | .table handlers => pure (some handlers)
      | _ => failure
    changeTable id fun t ↦ { t with metatable }
    pure [.table id]

/-- The metatable of a value, or what it shows in its place. -/
def getmetatable (arguments : List Item) : Run (List Item) := do
  let item ← anyArgument arguments 0
  let shown ← handler item Event.metatable
  if shown.isNil then
    match ← metatable? item with
    | some handlers => pure [.table handlers]
    | none => pure [.nil]
  else pure [shown]

/-- The entry of a table after a key, the first one after nil. -/
def next (arguments : List Item) : Run (List Item) := do
  let t ← table (← tableArgument arguments 0)
  match ← liftM (t.after? (argument arguments 1)) with
  | some (key, value) => pure [key, value]
  | none => pure [.nil]

/-- A function with which a loop goes through all entries, and its first arguments. -/
def pairs (call : Caller) (arguments : List Item) : Run (List Item) := do
  let item ← anyArgument arguments 0
  let f ← handler item Event.pairs
  if f.isNil then pure [.builtin .next, item, .nil]
  else
    let results ← call f [item]
    pure [argument results 0, argument results 1, argument results 2]

def ipairsStep (call : Caller) (arguments : List Item) : Run (List Item) := do
  let index := Item.ofInt ((← intArgument arguments 1) + 1)
  let found ← Metatable.index call (argument arguments 0) index
  pure (if found.isNil then [.nil] else [index, found])

def basic (call : Caller) (f : Builtin) (arguments : List Item) : Run (List Item) := do
  match f with
  | .print =>
    arguments.forM fun item ↦ discard (Metatable.text call item)
    pure []
  | .typeOf => do pure [.ofText (← anyArgument arguments 0).typeName]
  | .tostring => do pure [.string (← Metatable.text call (← anyArgument arguments 0))]
  | .tonumber => tonumber arguments
  | .assert => if (argument arguments 0).isTrue then pure arguments else failure
  | .select => select arguments
  | .rawget => do
    let id ← tableArgument arguments 0
    pure [← rawGet id (← anyArgument arguments 1)]
  | .rawset => do
    let id ← tableArgument arguments 0
    let value ← anyArgument arguments 2
    rawSet id (argument arguments 1) value
    pure [.table id]
  | .rawequal => do
    let b ← anyArgument arguments 1
    pure [.bool ((argument arguments 0).same b)]
  | .rawlen =>
    match argument arguments 0 with
    | .table id => do pure [.ofInt (← rawLength id)]
    | .string bytes => pure [.ofInt bytes.size]
    | _ => failure
  | .setmetatable => setmetatable arguments
  | .getmetatable => getmetatable arguments
  | .next => next arguments
  | .pairs => pairs call arguments
  | .ipairs => do pure [.builtin .ipairsStep, ← anyArgument arguments 0, .ofInt 0]
  | .ipairsStep => ipairsStep call arguments
  | .coroutineCreate => if (argument arguments 0).isFunction then do pure [← newThread] else failure
  | _ => failure

end Reactor.Script.Library

import Reactor.Script.Library.Argument

/-!
# Functions on tables

The items of a table are read and changed as a script would do it, so metatables take part.
-/

namespace Reactor.Script.Library

open Memory

/-- An argument that has to be a table, or another value with a metatable. -/
def listArgument (arguments : List Item) : Run Item := do
  let object := argument arguments 0
  match object, ← metatable? object with
  | .table _, _ => pure object
  | _, some _ => pure object
  | _, none => failure

def lengthOf (call : Caller) (object : Item) : Run Int := do
  match ← Metatable.length call object with
  | .number n => do pure (← liftM n.toInt?).toInt
  | .string bytes => do pure (← liftM (Item.string bytes).toInt?).toInt
  | _ => failure

def itemAt (call : Caller) (object : Item) (index : Int) : Run Item :=
  Metatable.index call object (.ofInt index)

def setItemAt (call : Caller) (object : Item) (index : Int) (new : Item) : Run Unit :=
  Metatable.setIndex call object (.ofInt index) new

def shift (call : Caller) (object : Item) (offset : Int) (indices : List Int) : Run Unit :=
  indices.forM fun index ↦ do
    setItemAt call object (index + offset) (← itemAt call object index)

def indices (first last : Int) : List Int :=
  (List.range (last - first + 1).toNat).map fun (i : Nat) ↦ first + (i : Int)

/-- Puts a value at an index, or behind the last item. -/
def insert (call : Caller) (arguments : List Item) : Run (List Item) := do
  let object ← listArgument arguments
  let length ← lengthOf call object
  match arguments with
  | [_, value] =>
    setItemAt call object (length + 1) value
    pure []
  | [_, _, value] =>
    let index ← intArgument arguments 1
    if index < 1 ∨ length + 1 < index then failure
    else
      shift call object 1 (indices index length).reverse
      setItemAt call object index value
      pure []
  | _ => failure

/-- Takes the value at an index out, or the last one. -/
def remove (call : Caller) (arguments : List Item) : Run (List Item) := do
  let object ← listArgument arguments
  let length ← lengthOf call object
  let index ← intArgumentOr arguments 1 length
  if index ≠ length ∧ (index < 1 ∨ length + 1 < index) then failure
  else
    let removed ← itemAt call object index
    shift call object (-1) (indices (index + 1) length)
    setItemAt call object (max index length) .nil
    pure [removed]

def joined (call : Caller) (arguments : List Item) : Run (List Item) := do
  let object ← listArgument arguments
  let length ← lengthOf call object
  let separator ← bytesArgumentOr arguments 1 .empty
  let first ← intArgumentOr arguments 2 1
  let last ← intArgumentOr arguments 3 length
  let bytes ← (indices first last).foldlM (fun out index ↦ do
    let part ← liftM (← itemAt call object index).toBytes?
    pure ((if index = first then out else out ++ separator) ++ part)) ByteArray.empty
  pure [.string bytes]

def unpacked (call : Caller) (arguments : List Item) : Run (List Item) := do
  let object := argument arguments 0
  let first ← intArgumentOr arguments 1 1
  let last ←
    if (argument arguments 2).isNil then lengthOf call object else intArgument arguments 2
  if maxStack ≤ (last - first + 1).toNat then failure
  else (indices first last).mapM (itemAt call object)

def onTables (call : Caller) (f : Builtin) (arguments : List Item) : Run (List Item) := do
  match f with
  | .tableInsert => insert call arguments
  | .tableRemove => remove call arguments
  | .tableConcat => joined call arguments
  | .tableUnpack => unpacked call arguments
  | .tablePack =>
    let t := (Table.sized arguments.length 1).setItems 0 arguments
    pure [← newTable (t.set (.ofText "n") (.ofInt arguments.length))]
  | _ => failure

end Reactor.Script.Library

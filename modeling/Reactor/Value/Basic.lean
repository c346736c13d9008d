import Reactor.Json.Printer

/-!
# Values of a descriptor

The values that descriptors are made of, whatever syntax they were written in. Unlike a JSON
document a value holds no null, its integers fit 64 bits with a sign, and its mappings list each
key once, in key order.
-/

namespace Reactor

/-- A value of a descriptor. -/
inductive Value where
  | bool (value : Bool)
  | integer (value : Int64)
  | float (value : Float)
  | string (text : String)
  | sequence (items : List Value)
  | mapping (entries : List (String × Value))
  deriving Inhabited

/-- The kinds of values that messages tell apart. -/
inductive Value.Kind where
  | boolean
  | number
  | string
  | sequence
  | mapping
  deriving DecidableEq, Repr

def Value.Kind.name : Value.Kind → String
  | boolean => "boolean"
  | number => "number"
  | string => "string"
  | sequence => "sequence"
  | mapping => "mapping"

namespace Value

/-- The kind of a value. Integers and floats are both numbers. -/
def kind : Value → Kind
  | bool _ => .boolean
  | integer _ => .number
  | float _ => .number
  | string _ => .string
  | sequence _ => .sequence
  | mapping _ => .mapping

/-- The string that a scalar becomes when it is used as a property. -/
def scalarText? : Value → Option String
  | string text => some text
  | bool true => some "true"
  | bool false => some "false"
  | integer n => some (toString n.toInt)
  | float x => some (Decimal.plainText x)
  | sequence _ => none
  | mapping _ => none

mutual

def toJson : Value → Json
  | bool value => .bool value
  | integer n => .number (.integer n.toInt)
  | float x => .number (.float x)
  | string text => .string text
  | sequence items => .array (itemsToJson items)
  | mapping entries => .object (entriesToJson entries)

def itemsToJson : List Value → List Json
  | [] => []
  | item :: rest => toJson item :: itemsToJson rest

def entriesToJson : List (String × Value) → List (String × Json)
  | [] => []
  | (key, value) :: rest => (key, toJson value) :: entriesToJson rest

end

/-- A value as shown to a reader: scalars as they are, the rest as JSON. -/
def display (v : Value) : String :=
  v.scalarText?.getD v.toJson.compact

variable {m : Type → Type} [Monad m]

mutual

/-- Applies `f` to every string in a value, depth first: the items of a sequence in order, the
entries of a mapping in key order. Keys are left alone. -/
def mapStringsM (f : String → m String) : Value → m Value
  | string text => string <$> f text
  | sequence items => sequence <$> mapItemsM f items
  | mapping entries => mapping <$> mapEntriesM f entries
  | bool value => pure (bool value)
  | integer n => pure (integer n)
  | float x => pure (float x)

def mapItemsM (f : String → m String) : List Value → m (List Value)
  | [] => pure []
  | item :: rest => do
    let item ← mapStringsM f item
    let rest ← mapItemsM f rest
    pure (item :: rest)

def mapEntriesM (f : String → m String) : List (String × Value) → m (List (String × Value))
  | [] => pure []
  | (key, value) :: rest => do
    let value ← mapStringsM f value
    let rest ← mapEntriesM f rest
    pure ((key, value) :: rest)

end

end Value

end Reactor

import Reactor.Script.Number
import Reactor.Value.Document

/-!
# Data that a script returns

The result of a script, taken out of the memory of the script: a tree without shared or changing
parts. A table whose keys are exactly `1` to `n` is a sequence, and a table whose keys are strings
is a mapping. To tell them apart, the number of entries is compared with the border of the table,
which is some `n` such that there is an item `n` but no item `n + 1`.
-/

namespace Reactor.Script

inductive Key where
  | string (bytes : List UInt8)
  | integer (n : Int64)
  /-- A key of another type. -/
  | other (typeName : String)
  deriving DecidableEq

def Key.typeName : Key → String
  | string _ => "string"
  | integer _ => "integer"
  | other name => name

/-- A value that a script returns. -/
inductive Data where
  | nil
  | bool (value : Bool)
  | number (n : Number)
  | string (bytes : List UInt8)
  /-- A table with a border and its entries in some order, each key once. -/
  | table (border : Nat) (entries : List (Key × Data))
  /-- A value that is no data. -/
  | other (typeName : String)

namespace Data

def typeName : Data → String
  | nil => "nil"
  | bool _ => "boolean"
  | number (.int _) => "integer"
  | number _ => "number"
  | string _ => "string"
  | table _ _ => "table"
  | other name => name

def textAt (pointer : Value.Pointer) (bytes : List UInt8) : Except Value.Rejection String :=
  (Text.Utf8.decode bytes).mapError fun fault ↦ ⟨pointer, .undecodable fault⟩

def keyAt (pointer : Value.Pointer) : Key → Except Value.Rejection String
  | .string bytes => textAt pointer bytes
  | key => .error ⟨pointer, .tableKey key.typeName⟩

mutual

def toValue (pointer : Value.Pointer) : Data → Except Value.Rejection Value
  | nil => .error ⟨pointer, .nilValue⟩
  | bool value => .ok (.bool value)
  | number (.int n) => .ok (.integer n)
  | number n => .ok (.float n.toFloat)
  | string bytes => .string <$> textAt pointer bytes
  | table border entries =>
    if 0 < border ∧ entries.length = border then
      .sequence <$> (List.range border).mapM fun index ↦ itemValue pointer (index + 1) entries
    else (fun values ↦ .mapping (SortedMap.ofList values).entries) <$> entryValues pointer entries
  | other name => .error ⟨pointer, .otherType name⟩

/-- The value of the item with an index, counted from one, among the entries of a table. -/
def itemValue (pointer : Value.Pointer) (index : Nat) :
    List (Key × Data) → Except Value.Rejection Value
  | [] => .error ⟨pointer.item index, .nilValue⟩
  | (key, data) :: rest =>
    if key = .integer (Int64.ofNat index) then toValue (pointer.item index) data
    else itemValue pointer index rest

/-- The entries of the mapping that the entries of a table make. -/
def entryValues (pointer : Value.Pointer) :
    List (Key × Data) → Except Value.Rejection (List (String × Value))
  | [] => .ok []
  | (key, data) :: rest => do
    let key ← keyAt pointer key
    let value ← toValue (pointer.entry key) data
    let values ← entryValues pointer rest
    .ok ((key, value) :: values)

end

end Data

end Reactor.Script

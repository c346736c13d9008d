import Reactor.Text.Utf8
import Reactor.Value.Basic

/-!
# Values from documents

Two ways to read a document as a value. `ofJson` is how descriptors are read: it refuses nulls and
integers beyond the signed 64-bit range, and says where the first one stands. `ofJsonLenient?`
reads stored values: it refuses nulls too, but turns an integer that does not fit into a float.
-/

namespace Reactor

/-- Why a value of the source syntax has no counterpart among the values of descriptors. -/
inductive Unsupported where
  | nullValue
  | outOfRange (n : Int)
  /-- A nil where a table should hold an item. -/
  | nilValue
  /-- A value of a type that descriptors cannot hold. -/
  | otherType (name : String)
  /-- A table key of a type other than string. -/
  | tableKey (name : String)
  /-- A string that is not UTF-8. -/
  | undecodable (fault : Text.Utf8Fault)
  deriving DecidableEq, Repr

def Unsupported.message : Unsupported → String
  | nullValue => "null values are not allowed"
  | outOfRange n => s!"number {n} is out of range"
  | nilValue => "nil values are not allowed"
  | otherType name => s!"unsupported type {name}"
  | tableKey name => s!"table keys must be strings, got {name}"
  | undecodable fault => "error converting Lua string to &str (" ++ fault.message ++ ")"

namespace Value

/-- A pointer into a document, as the text that messages show: keys joined by dots, and indices in
brackets. The empty text is the document itself. -/
abbrev Pointer := String

namespace Pointer

def root : Pointer :=
  ""

def item (pointer : Pointer) (index : Nat) : Pointer :=
  s!"{pointer}[{index}]"

/-- The pointer to an entry. No dot is written before the first key. -/
def entry (pointer : Pointer) (key : String) : Pointer :=
  if pointer.isEmpty then key else pointer ++ "." ++ key

def shown (pointer : Pointer) : String :=
  if pointer.isEmpty then "<root>" else pointer

end Pointer

/-- A value that cannot be represented, and where it stands. -/
structure Rejection where
  pointer : Pointer
  reason : Unsupported
  deriving DecidableEq, Repr

def fitsSigned (n : Int) : Bool :=
  -0x8000000000000000 ≤ n && n < 0x8000000000000000

def ofNumber (pointer : Pointer) : Number → Except Rejection Value
  | .float x => .ok (float x)
  | .integer n =>
    if fitsSigned n then .ok (integer (Int64.ofInt n)) else .error ⟨pointer, .outOfRange n⟩

mutual

/-- The value of a document without repeated keys at `pointer`. -/
def ofOrdered (pointer : Pointer) : Json → Except Rejection Value
  | .null => .error ⟨pointer, .nullValue⟩
  | .bool value => .ok (bool value)
  | .number n => ofNumber pointer n
  | .string text => .ok (string text)
  | .array items => sequence <$> itemsOfOrdered pointer 0 items
  | .object entries => mapping <$> entriesOfOrdered pointer entries

/-- The values of items, of which the first has the given index. -/
def itemsOfOrdered (pointer : Pointer) (index : Nat) : List Json → Except Rejection (List Value)
  | [] => .ok []
  | item :: rest => do
    let value ← ofOrdered (pointer.item index) item
    let values ← itemsOfOrdered pointer (index + 1) rest
    .ok (value :: values)

def entriesOfOrdered (pointer : Pointer) :
    List (String × Json) → Except Rejection (List (String × Value))
  | [] => .ok []
  | (key, document) :: rest => do
    let value ← ofOrdered (pointer.entry key) document
    let values ← entriesOfOrdered pointer rest
    .ok ((key, value) :: values)

end

/-- The value of a document. The last entry of a repeated key counts, and entries are read in key
order. -/
def ofJson (document : Json) : Except Rejection Value :=
  ofOrdered .root document.sortKeys

/-- The value of a number, a float if it is an integer that does not fit. -/
def ofNumberLenient : Number → Value
  | .float x => float x
  | .integer n =>
    if fitsSigned n then integer (Int64.ofInt n) else float n.toNat.toUInt64.toFloat

mutual

/-- The value of a document, unless a null occurs anywhere in it. -/
def ofJsonLenient? : Json → Option Value
  | .null => none
  | .bool value => some (bool value)
  | .number n => some (ofNumberLenient n)
  | .string text => some (string text)
  | .array items => sequence <$> itemsLenient? items
  | .object entries =>
    (fun values ↦ mapping (SortedMap.ofList values).entries) <$> entriesLenient? entries

def itemsLenient? : List Json → Option (List Value)
  | [] => some []
  | item :: rest => do
    let value ← ofJsonLenient? item
    let values ← itemsLenient? rest
    some (value :: values)

def entriesLenient? : List (String × Json) → Option (List (String × Value))
  | [] => some []
  | (key, document) :: rest => do
    let value ← ofJsonLenient? document
    let values ← entriesLenient? rest
    some ((key, value) :: values)

end

end Value

end Reactor

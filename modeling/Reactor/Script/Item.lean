import Reactor.Script.Operation
import Reactor.Script.Token

/-!
# Values of a running script

Tables, functions and open files can change and have an identity, so a value refers to one of them
by a number; what they are is kept in the memory of the script. Strings are sequences of bytes.
-/

namespace Reactor.Script

/-- The functions that every script has at hand. -/
inductive Builtin where
  | print
  | typeOf
  | tostring
  | tonumber
  | assert
  | error
  | select
  | rawget
  | rawset
  | rawequal
  | rawlen
  | setmetatable
  | getmetatable
  | next
  | pairs
  | ipairs
  | ipairsStep
  | stringLength
  | stringSub
  | stringUpper
  | stringLower
  | stringRepeat
  | stringReverse
  | stringByte
  | stringChar
  | stringFormat
  /-- An operation on numbers of which one is spelled by a string. -/
  | stringArithmetic (op : Arithmetic)
  /-- The negation of a number that is spelled by a string. -/
  | stringNegate
  | tableInsert
  | tableRemove
  | tableConcat
  | tableUnpack
  | tablePack
  | mathFloor
  | mathCeil
  | mathAbs
  | mathMax
  | mathMin
  | mathSqrt
  | mathToInteger
  | mathType
  | mathFmod
  | ioOpen
  | fileRead
  | fileClose
  | fileText
  | coroutineCreate
  /-- A function that is there but cannot be called. -/
  | unavailable (name : String)
  deriving DecidableEq

/-- A value of a running script. -/
inductive Item where
  | nil
  | bool (value : Bool)
  | number (n : Number)
  | string (bytes : ByteArray)
  | table (id : Nat)
  | closure (id : Nat)
  | builtin (f : Builtin)
  | thread (id : Nat)
  | file (id : Nat)
  deriving Inhabited

namespace Item

def ofText (text : String) : Item :=
  .string text.toUTF8

def ofBytes (bytes : Bytes) : Item :=
  .string ⟨bytes.toArray⟩

def ofInt (n : Int) : Item :=
  .number (.int (Int64.ofInt n))

def isTrue : Item → Bool
  | nil => false
  | bool value => value
  | _ => true

def isNil : Item → Bool
  | nil => true
  | _ => false

def isFunction : Item → Bool
  | closure _ => true
  | builtin _ => true
  | _ => false

/-- The name of the type of a value, which does not tell integers from floats. -/
def typeName : Item → String
  | nil => "nil"
  | bool _ => "boolean"
  | number _ => "number"
  | string _ => "string"
  | table _ => "table"
  | closure _ => "function"
  | builtin _ => "function"
  | thread _ => "thread"
  | file _ => "userdata"

/-- Whether two values are the same, where numbers are compared as numbers. -/
def same : Item → Item → Bool
  | nil, nil => true
  | bool a, bool b => a = b
  | number a, number b => a.eq b
  | string a, string b => a == b
  | table a, table b => a = b
  | closure a, closure b => a = b
  | builtin a, builtin b => a = b
  | thread a, thread b => a = b
  | file a, file b => a = b
  | _, _ => false

def toNumber? : Item → Option Number
  | number n => some n
  | string bytes =>
    (Text.Utf8.decode bytes.toList).toOption.bind fun s ↦ Numeral.ofText? s.toList
  | _ => none

/-- The integer that a value is equal to, or that a string spells. -/
def toInt? (item : Item) : Option Int64 :=
  item.toNumber?.bind Number.toInt?

def toBytes? : Item → Option ByteArray
  | number n => some n.text.toUTF8
  | string bytes => some bytes
  | _ => none

/-- The form of a key under which it is stored: a float that is equal to an integer is stored as
one. Nil and what is not a number are no keys. -/
def asKey? : Item → Option Item
  | nil => none
  | number (.notANumber _) => none
  | number (.float x) =>
    match Number.exactInt? x with
    | some n => some (.number (.int n))
    | none => some (.number (.float x))
  | key => some key

/-- Whether one sequence of bytes comes before another in the order of dictionaries, from a
position up to which both agree. `rounds` bounds the number of bytes. -/
def bytesBefore (a b : ByteArray) (position : Nat) : (rounds : Nat) → Bool
  | 0 => false
  | rounds + 1 =>
    match a[position]?, b[position]? with
    | _, none => false
    | none, some _ => true
    | some x, some y => if x = y then bytesBefore a b (position + 1) rounds else x < y

def stringLt (a b : ByteArray) : Bool :=
  bytesBefore a b 0 (b.size + 1)

end Item

end Reactor.Script

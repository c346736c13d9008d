import Reactor.Script.Compile.Program
import Reactor.Script.Data
import Reactor.Script.Grammar
import Reactor.Script.Machine

/-!
# The result of a script

A text is read as an expression if it is one, and else as statements that return something. The
value that is returned is taken out of the memory of the script.
-/

namespace Reactor.Script

/-- The key of a table as it is seen from outside. -/
def Item.toKey : Item → Key
  | .string bytes => .string bytes.toList
  | .number (.int n) => .integer n
  | .number _ => .other "number"
  | item => .other item.typeName

/-- A value as it is seen from outside, unless its tables are nested more than `depth` deep. -/
def Memory.data? (m : Memory) : (depth : Nat) → Item → Option Data
  | _, .nil => some .nil
  | _, .bool value => some (.bool value)
  | _, .number n => some (.number n)
  | _, .string bytes => some (.string bytes.toList)
  | 0, .table _ => none
  | depth + 1, .table id => do
    let t ← m.tables[id]?
    let entries ← t.pairs.mapM fun (key, value) ↦ do
      let data ← m.data? depth value
      some (key.toKey, data)
    some (.table t.border entries)
  | _, item => some (.other item.typeName)

def compiled? (text : List Char) : Option (Array Prototype) :=
  (program? text).bind Compile.program?

def script? (text : String) : Option (Array Prototype) :=
  (compiled? ("return ".toList ++ text.toList)).or (compiled? text.toList)

/-- The first value that a program returns. Tables that do not contain themselves are nested no
deeper than there are tables. -/
def run? (fs : FileSystem) (directory : String) (program : Array Prototype) : Option Data := do
  let (results, m) ← Machine.results.run (Library.memory fs directory program)
  m.data? m.tables.size (Metatable.first results)

/-- The data that a script in a directory returns, unless it fails. -/
def result? (fs : FileSystem) (directory text : String) : Option Data :=
  (script? text).bind (run? fs directory)

end Reactor.Script

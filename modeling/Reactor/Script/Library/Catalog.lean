import Reactor.Script.Library.Basic
import Reactor.Script.Library.Files
import Reactor.Script.Library.Numbers
import Reactor.Script.Library.Strings
import Reactor.Script.Library.Tables

/-!
# The library of scripts

The tables in which a script finds the functions of the library. Some functions are there under
their names but cannot be called.
-/

namespace Reactor.Script.Library

open Memory

def apply (call : Caller) (f : Builtin) (arguments : List Item) : Run (List Item) :=
  match f with
  | .stringLength | .stringSub | .stringUpper | .stringLower | .stringRepeat | .stringReverse
  | .stringByte | .stringChar | .stringFormat | .stringArithmetic _ | .stringNegate =>
    onStrings call f arguments
  | .tableInsert | .tableRemove | .tableConcat | .tableUnpack | .tablePack =>
    onTables call f arguments
  | .mathFloor | .mathCeil | .mathAbs | .mathMax | .mathMin | .mathSqrt | .mathToInteger
  | .mathType | .mathFmod => onNumbers call f arguments
  | .ioOpen | .fileRead | .fileClose | .fileText => onFiles f arguments
  | _ => basic call f arguments

/-! ## Tables of functions -/

/-- Functions that cannot be called, by name. -/
def unavailable (names : List String) : List (String × Item) :=
  names.map fun name ↦ (name, .builtin (.unavailable name))

def available (functions : List (String × Builtin)) : List (String × Item) :=
  functions.map fun (name, f) ↦ (name, .builtin f)

def stringTable : Table :=
  .ofNames <|
    available [("len", .stringLength), ("sub", .stringSub), ("upper", .stringUpper),
      ("lower", .stringLower), ("rep", .stringRepeat), ("reverse", .stringReverse),
      ("byte", .stringByte), ("char", .stringChar), ("format", .stringFormat)] ++
    unavailable ["dump", "find", "gmatch", "gsub", "match", "pack", "packsize", "unpack"]

def stringOperationTable : Table :=
  .ofNames <|
    ("__index", .table strings) ::
    available [("__add", .stringArithmetic .add), ("__sub", .stringArithmetic .sub),
      ("__mul", .stringArithmetic .mul), ("__mod", .stringArithmetic .mod),
      ("__pow", .stringArithmetic .power), ("__div", .stringArithmetic .div),
      ("__idiv", .stringArithmetic .floorDiv), ("__unm", .stringNegate)]

def fileMethodTable : Table :=
  .ofNames <|
    available [("read", .fileRead), ("close", .fileClose)] ++
    unavailable ["flush", "lines", "seek", "setvbuf", "write"]

def fileOperationTable : Table :=
  .ofNames <|
    [("__index", .table fileMethods), ("__name", .ofText "FILE*")] ++
    available [("__tostring", .fileText)] ++
    unavailable ["__gc", "__close"]

def mathTable : Table :=
  .ofNames <|
    available [("floor", .mathFloor), ("ceil", .mathCeil), ("abs", .mathAbs), ("max", .mathMax),
      ("min", .mathMin), ("sqrt", .mathSqrt), ("tointeger", .mathToInteger), ("type", .mathType),
      ("fmod", .mathFmod)] ++
    [("huge", .number (.float (1.0 / 0.0))), ("pi", .number (.float 3.141592653589793)),
      ("maxinteger", .ofInt 0x7FFFFFFFFFFFFFFF), ("mininteger", .ofInt (-0x8000000000000000))] ++
    unavailable ["acos", "asin", "atan", "cos", "cosh", "deg", "exp", "frexp", "ldexp", "log",
      "log10", "modf", "pow", "rad", "random", "randomseed", "sin", "sinh", "tan", "tanh", "ult"]

def tableTable : Table :=
  .ofNames <|
    available [("insert", .tableInsert), ("remove", .tableRemove), ("concat", .tableConcat),
      ("unpack", .tableUnpack), ("pack", .tablePack)] ++
    unavailable ["move", "sort"]

def ioTable : Table :=
  .ofNames <|
    available [("open", .ioOpen)] ++
    unavailable ["close", "flush", "input", "lines", "output", "popen", "read", "tmpfile", "type",
      "write"]

def coroutineTable : Table :=
  .ofNames <|
    available [("create", .coroutineCreate)] ++
    unavailable ["close", "isyieldable", "resume", "running", "status", "wrap", "yield"]

def systemTable : Table :=
  .ofNames (unavailable ["clock", "date", "difftime", "execute", "exit", "getenv", "remove",
    "rename", "setlocale", "time", "tmpname"])

def utf8Table : Table :=
  .ofNames (unavailable ["char", "codepoint", "codes", "len", "offset"])

def globalTable (directory : String) : Table :=
  .ofNames <|
    [("_G", .table globals), ("_VERSION", .ofText "Lua 5.4"), ("string", .table strings),
      ("math", .table 5), ("table", .table 6), ("io", .table 7), ("coroutine", .table 8),
      ("os", .table 9), ("utf8", .table 10), ("basedir", .ofText directory)] ++
    available [("print", .print), ("type", .typeOf), ("tostring", .tostring),
      ("tonumber", .tonumber), ("assert", .assert), ("error", .error), ("select", .select),
      ("rawget", .rawget), ("rawset", .rawset), ("rawequal", .rawequal), ("rawlen", .rawlen),
      ("setmetatable", .setmetatable), ("getmetatable", .getmetatable), ("next", .next),
      ("pairs", .pairs), ("ipairs", .ipairs)] ++
    unavailable ["collectgarbage", "dofile", "load", "loadfile", "pcall", "require", "xpcall"]

/-- The memory of a script in a directory before its first step. The first slots of the stack are
taken by what starts the script. -/
def memory (fs : FileSystem) (directory : String) (program : Array Prototype) : Memory where
  fileSystem := fs
  program
  stack := #[]
  ceiling := 2
  tables :=
    #[globalTable directory, stringTable, stringOperationTable, fileMethodTable,
      fileOperationTable, mathTable, tableTable, ioTable, coroutineTable, systemTable, utf8Table]
  closures := #[]
  cells := #[]
  shared := []
  files := #[]
  threads := 0

end Reactor.Script.Library

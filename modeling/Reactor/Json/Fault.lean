/-!
# Faults in JSON texts

A fault is reported with the line and the column at which reading stopped. Lines count from one, and
the column is the number of bytes of UTF-8 that were read on that line.
-/

namespace Reactor.Json

/-- What is wrong with a text. -/
inductive Reason where
  | eofList
  | eofObject
  | eofString
  | eofValue
  | expectedColon
  | expectedListCommaOrEnd
  | expectedObjectCommaOrEnd
  | expectedIdent
  | expectedValue
  | invalidEscape
  | invalidNumber
  | numberOutOfRange
  | controlCharacter
  | keyNotString
  | loneSurrogate
  | trailingComma
  | trailingCharacters
  | unfinishedSurrogate
  | tooDeep
  deriving DecidableEq, Repr

def Reason.text : Reason → String
  | eofList => "EOF while parsing a list"
  | eofObject => "EOF while parsing an object"
  | eofString => "EOF while parsing a string"
  | eofValue => "EOF while parsing a value"
  | expectedColon => "expected \x60:\x60"
  | expectedListCommaOrEnd => "expected \x60,\x60 or \x60]\x60"
  | expectedObjectCommaOrEnd => "expected \x60,\x60 or \x60\x7d\x60"
  | expectedIdent => "expected ident"
  | expectedValue => "expected value"
  | invalidEscape => "invalid escape"
  | invalidNumber => "invalid number"
  | numberOutOfRange => "number out of range"
  | controlCharacter =>
    "control character (\\u0000-\\u001F) found while parsing a string"
  | keyNotString => "key must be a string"
  | loneSurrogate => "lone leading surrogate in hex escape"
  | trailingComma => "trailing comma"
  | trailingCharacters => "trailing characters"
  | unfinishedSurrogate => "unexpected end of hex escape"
  | tooDeep => "recursion limit exceeded"

/-- A place in a text where reading stops: `ahead` bytes into what is left of the text. -/
structure Stop where
  reason : Reason
  left : List Char
  ahead : Nat
  deriving DecidableEq, Repr

/-- A fault, and where in the text it was met. -/
structure Fault where
  reason : Reason
  line : Nat
  column : Nat
  deriving DecidableEq, Repr

def Fault.message (fault : Fault) : String :=
  s!"{fault.reason.text} at line {fault.line} column {fault.column}"

/-- How many bytes of UTF-8 characters take. -/
def byteLength (cs : List Char) : Nat :=
  cs.foldl (fun n c ↦ n + c.utf8Size) 0

/-- The line and the column after a number of bytes, seen from a given line and column. A position
beyond the end is the end. -/
def positionAfter (line column bytes : Nat) : List Char → Nat × Nat
  | [] => (line, column)
  | c :: rest =>
    if bytes < c.utf8Size then (line, column + bytes)
    else if c = '\n' then positionAfter (line + 1) 0 (bytes - 1) rest
    else positionAfter line (column + c.utf8Size) (bytes - c.utf8Size) rest

def Stop.fault (stop : Stop) (text : List Char) : Fault :=
  let position := positionAfter 1 0 (byteLength text - byteLength stop.left + stop.ahead) text
  ⟨stop.reason, position.1, position.2⟩

end Reactor.Json

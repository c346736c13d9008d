import Reactor.Json.Literal
import Reactor.Text.Hex

/-!
# Tokens of JSON

A text is cut into tokens from left to right. A string or number may be well formed and still denote
nothing, as a lone surrogate does; such a token is kept, because whoever reads the document may pass
over it.
-/

namespace Reactor.Json

inductive Lexeme where
  | openArray
  | closeArray
  | openObject
  | closeObject
  | comma
  | colon
  /-- A well-formed string, with its text if it denotes one. -/
  | string (text : Except Stop String)
  /-- A well-formed number or one of the words `true`, `false` and `null`. -/
  | scalar (value : Except Stop Json)
  /-- What is no token, and whether it begins like a string. -/
  | broken (stop : Stop) (isQuoted : Bool)

/-- A token and the text that it starts. -/
structure Token where
  lexeme : Lexeme
  start : List Char

/-- What stands between the tokens of a text. -/
def isSpace (c : Char) : Bool :=
  c = ' ' || c = '\t' || c = '\n' || c = '\r'

def hexUnit? (a b c d : Char) : Option Nat := do
  let a ← Text.hexValue? a
  let b ← Text.hexValue? b
  let c ← Text.hexValue? c
  let d ← Text.hexValue? d
  some (((a * 16 + b) * 16 + c) * 16 + d)

def escape? : Char → Option Char
  | '"' => some '"'
  | '\\' => some '\\'
  | '/' => some '/'
  | 'b' => some '\x08'
  | 'f' => some '\x0c'
  | 'n' => some '\n'
  | 'r' => some '\r'
  | 't' => some '\t'
  | _ => none

def isHighSurrogate (unit : Nat) : Bool :=
  0xD800 ≤ unit && unit < 0xDC00

def isLowSurrogate (unit : Nat) : Bool :=
  0xDC00 ≤ unit && unit < 0xE000

/-- The stop at an escape whose four hexadecimal digits should stand at the front of a text. -/
def hexStop (text : List Char) : Stop :=
  if 4 ≤ byteLength text then ⟨.invalidEscape, text, 4⟩ else ⟨.eofString, [], 0⟩

/-- What was read of a string, or where it first ceased to denote text. The characters are in reverse
order. -/
abbrev Quotation := Except Stop (List Char)

namespace Quotation

def push (read : Quotation) (c : Char) : Quotation :=
  read.map (c :: ·)

/-- A string that ceases to denote text, if it did not before. -/
def ceaseAt (read : Quotation) (stop : Stop) : Quotation :=
  read.bind fun _ ↦ .error stop

def breakOff (read : Quotation) (stop : Stop) : Lexeme :=
  match read with
  | .ok _ => .broken stop true
  | .error first => .broken first true

end Quotation

/-- What follows the first half of a surrogate pair. -/
inductive SecondHalf where
  /-- The second half. -/
  | present (unit : Nat)
  /-- No second half, as is seen at the given stop. -/
  | absent (stop : Stop)
  /-- An escape that is not well formed. -/
  | broken (stop : Stop)

/-- What stands at the front of the text after the first half of a surrogate pair. -/
def secondHalf : List Char → SecondHalf
  | [] => .broken ⟨.eofString, [], 0⟩
  | ['\\'] => .broken ⟨.eofString, [], 0⟩
  | '\\' :: 'u' :: a :: b :: c :: d :: rest =>
    match hexUnit? a b c d with
    | none => .broken ⟨.invalidEscape, a :: b :: c :: d :: rest, 4⟩
    | some unit => if isLowSurrogate unit then .present unit else .absent ⟨.loneSurrogate, rest, 0⟩
  | '\\' :: 'u' :: rest => .broken (hexStop rest)
  | '\\' :: rest => .absent ⟨.unfinishedSurrogate, rest, 1⟩
  | rest => .absent ⟨.unfinishedSurrogate, rest, 1⟩

/-- Reads a string up to its closing quote, and counts its characters. The first `skip` characters
belong to an escape that was read already. -/
def quoted (skip length : Nat) (read : Quotation) : List Char → Lexeme × Nat
  | [] => (read.breakOff ⟨.eofString, [], 0⟩, length)
  | first :: rest =>
    match skip with
    | skip + 1 => quoted skip (length + 1) read rest
    | 0 =>
      if first = '"' then (.string (read.map fun cs ↦ String.ofList cs.reverse), length + 1)
      else if first = '\\' then
        match rest with
        | [] => (read.breakOff ⟨.eofString, [], 0⟩, length)
        | 'u' :: a :: b :: c :: d :: more =>
          match hexUnit? a b c d with
          | none => (read.breakOff ⟨.invalidEscape, a :: b :: c :: d :: more, 4⟩, length)
          | some unit =>
            if isLowSurrogate unit then
              quoted 5 (length + 1) (read.ceaseAt ⟨.loneSurrogate, more, 0⟩) rest
            else if isHighSurrogate unit then
              match secondHalf more with
              | .present low =>
                quoted 11 (length + 1)
                  (read.push (Char.ofNat (0x10000 + (unit - 0xD800) * 0x400 + (low - 0xDC00)))) rest
              | .absent stop => quoted 5 (length + 1) (read.ceaseAt stop) rest
              | .broken stop => (read.breakOff stop, length)
            else quoted 5 (length + 1) (read.push (Char.ofNat unit)) rest
        | 'u' :: more => (read.breakOff (hexStop more), length)
        | c :: more =>
          match escape? c with
          | some c => quoted 1 (length + 1) (read.push c) rest
          | none => (read.breakOff ⟨.invalidEscape, c :: more, 1⟩, length)
      else if first.toNat < 0x20 then
        (read.breakOff ⟨.controlCharacter, first :: rest, 1⟩, length)
      else quoted 0 (length + 1) (read.push first) rest

/-- Reads the rest of a word, of which `length` characters were read, and counts its characters. -/
def word (value : Json) (length : Nat) : List Char → List Char → Lexeme × Nat
  | [], _ => (.scalar (.ok value), length)
  | _, [] => (.broken ⟨.eofValue, [], 0⟩ false, length)
  | expected :: others, c :: rest =>
    if c = expected then word value (length + 1) others rest
    else (.broken ⟨.expectedIdent, c :: rest, 1⟩ false, length)

/-- The token that starts with the character `c`, and how many characters it takes after `c`. -/
def lexeme (c : Char) (rest : List Char) : Lexeme × Nat :=
  match c with
  | '[' => (.openArray, 0)
  | ']' => (.closeArray, 0)
  | '{' => (.openObject, 0)
  | '}' => (.closeObject, 0)
  | ',' => (.comma, 0)
  | ':' => (.colon, 0)
  | '"' => quoted 0 0 (.ok []) rest
  | 't' => word (.bool true) 0 "rue".toList rest
  | 'f' => word (.bool false) 0 "alse".toList rest
  | 'n' => word .null 0 "ull".toList rest
  | c =>
    if c = '-' ∨ c.isDigit then
      match Literal.read (c :: rest) with
      | .ok reading => (.scalar (reading.number.map .number), reading.length - 1)
      | .error stop => (.broken stop false, 0)
    else (.broken ⟨.expectedValue, c :: rest, 1⟩ false, 0)

/-- The tokens of a text, of which the first `skip` characters belong to a token before. Nothing is
read after what is no token. -/
def scan (skip : Nat) : List Char → List Token
  | [] => []
  | c :: rest =>
    match skip with
    | skip + 1 => scan skip rest
    | 0 =>
      if isSpace c then scan 0 rest
      else
        match lexeme c rest with
        | (.broken stop isQuoted, _) => [⟨.broken stop isQuoted, c :: rest⟩]
        | (lexeme, length) => ⟨lexeme, c :: rest⟩ :: scan length rest

end Reactor.Json

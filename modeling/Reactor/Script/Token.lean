import Reactor.Script.Numeral
import Reactor.Text.Utf8

/-!
# Tokens of a script

A script is cut into names, reserved words, punctuation, numbers and strings. Strings are byte
sequences, since escapes can put any byte into them. Every reader of a token returns the characters
after it, and cutting ends because each token takes at least one character.
-/

namespace Reactor.Script

abbrev Bytes := List UInt8

inductive Token where
  | name (text : String)
  /-- A reserved word or punctuation. -/
  | fixed (text : String)
  | number (n : Number)
  | string (bytes : Bytes)

namespace Token

def reserved : List String :=
  ["and", "break", "do", "else", "elseif", "end", "false", "for", "function", "goto", "if", "in",
    "local", "nil", "not", "or", "repeat", "return", "then", "true", "until", "while"]

/-- The punctuation, longer marks before those that they start with. -/
def punctuation : List String :=
  ["...", "<<", ">>", "//", "==", "~=", "<=", ">=", "::", "..", "+", "-", "*", "/", "%", "^", "#",
    "&", "~", "|", "<", ">", "=", "(", ")", "\x7b", "\x7d", "[", "]", ";", ":", ",", "."]

def isNameStart (c : Char) : Bool :=
  c.isAlpha || c = '_'

def isNameChar (c : Char) : Bool :=
  c.isAlphanum || c = '_'

/-- Whether a character ends a line, maybe together with the next one. -/
def isLineEnd (c : Char) : Bool :=
  c = '\n' || c = '\r'

/-- The characters after a line end, of which a carriage return and a line feed make one in either
order. -/
def afterLineEnd (c : Char) (rest : List Char) : List Char :=
  match rest with
  | d :: tail => if isLineEnd d ∧ d ≠ c then tail else rest
  | [] => rest

/-- The bytes of a character as it stands in the script. -/
def bytesOf (c : Char) : Bytes :=
  Text.Utf8.encode c.toString

/-! ## Numbers -/

/-- The characters of a numeral, as many as could belong to one, and those after it. -/
def numeralSpan (isMark : Char → Bool) : List Char → List Char × List Char
  | [] => ([], [])
  | c :: rest =>
    if isMark c then
      match rest with
      | '+' :: rest =>
        let (taken, after) := numeralSpan isMark rest
        (c :: '+' :: taken, after)
      | '-' :: rest =>
        let (taken, after) := numeralSpan isMark rest
        (c :: '-' :: taken, after)
      | rest =>
        let (taken, after) := numeralSpan isMark rest
        (c :: taken, after)
    else if Numeral.isHexDigit c ∨ c = '.' then
      let (taken, after) := numeralSpan isMark rest
      (c :: taken, after)
    else ([], c :: rest)

/-- The number at the start of the characters. No letter may follow it directly. -/
def number? (cs : List Char) : Option (Token × List Char) :=
  let (taken, after) :=
    match cs with
    | '0' :: 'x' :: rest =>
      let (taken, after) := numeralSpan (fun c ↦ c = 'p' || c = 'P') rest
      ('0' :: 'x' :: taken, after)
    | '0' :: 'X' :: rest =>
      let (taken, after) := numeralSpan (fun c ↦ c = 'p' || c = 'P') rest
      ('0' :: 'x' :: taken, after)
    | cs => numeralSpan (fun c ↦ c = 'e' || c = 'E') cs
  if after.head?.any isNameStart then none
  else (Numeral.number? false taken).map (.number ·, after)

/-! ## Strings -/

/-- The level of the long bracket that the characters after an opening bracket start, and the
characters after it. -/
def longBracket? (cs : List Char) : Option (Nat × List Char) :=
  let level := (cs.takeWhile (· = '=')).length
  match cs.dropWhile (· = '=') with
  | '[' :: rest => some (level, rest)
  | _ => none

/-- Whether the characters after a closing bracket end a long bracket of some level. -/
def closesLong (level : Nat) (cs : List Char) : Bool :=
  cs.take (level + 1) = List.replicate level '=' ++ [']']

/-- The content of a long bracket and the characters after it. Line ends become line feeds, and a
second character of a line end, which `skip` announces, is passed over. `read` is what was read,
last byte first. -/
def longContent (level : Nat) (read : Bytes) (skip : Option Char) :
    List Char → Option (Bytes × List Char)
  | [] => none
  | c :: rest =>
    if isLineEnd c then
      if skip.any (· ≠ c) then longContent level read none rest
      else longContent level (10 :: read) (some c) rest
    else if c = ']' ∧ closesLong level rest then some (read.reverse, rest.drop (level + 1))
    else longContent level ((bytesOf c).reverse ++ read) none rest

/-- The content of a long bracket without the line end that may come first. -/
def long? (level : Nat) (cs : List Char) : Option (Bytes × List Char) :=
  match cs with
  | c :: rest => longContent level [] none (if isLineEnd c then afterLineEnd c rest else cs)
  | [] => none

def escape? : Char → Option UInt8
  | 'a' => some 7
  | 'b' => some 8
  | 'f' => some 12
  | 'n' => some 10
  | 'r' => some 13
  | 't' => some 9
  | 'v' => some 11
  | '\\' => some 92
  | '"' => some 34
  | '\'' => some 39
  | _ => none

/-- The bytes of a code point below `2 ^ 31`, in the scheme of UTF-8 without its upper limit. -/
def codePoint (n : Nat) : Bytes :=
  let tail (count : Nat) : Bytes :=
    (List.range count).reverse.map fun i ↦ UInt8.ofNat (0x80 + n / Nat.pow 64 i % 64)
  if n < 0x80 then [UInt8.ofNat n]
  else if n < 0x800 then UInt8.ofNat (0xC0 + n / 64) :: tail 1
  else if n < 0x10000 then UInt8.ofNat (0xE0 + n / 0x1000) :: tail 2
  else if n < 0x200000 then UInt8.ofNat (0xF0 + n / 0x40000) :: tail 3
  else if n < 0x4000000 then UInt8.ofNat (0xF8 + n / 0x1000000) :: tail 4
  else UInt8.ofNat (0xFC + n / 0x40000000) :: tail 5

/-- The bytes of the escape with the given characters after its backslash, and the characters after
it. -/
def escaped? (cs : List Char) : Option (Bytes × List Char) :=
  match cs with
  | [] => none
  | 'x' :: a :: b :: rest => do
    let a ← Text.hexValue? a
    let b ← Text.hexValue? b
    some ([UInt8.ofNat (16 * a + b)], rest)
  | 'z' :: rest => some ([], rest.dropWhile Numeral.isSpace)
  | 'u' :: '{' :: rest =>
    let digits := rest.takeWhile Numeral.isHexDigit
    let n := Numeral.digits 16 digits
    match rest.dropWhile Numeral.isHexDigit with
    | '}' :: rest => if digits ≠ [] ∧ n < 0x80000000 then some (codePoint n, rest) else none
    | _ => none
  | c :: rest =>
    if isLineEnd c then some ([10], afterLineEnd c rest)
    else if c.isDigit then
      let digits := ((c :: rest).take 3).takeWhile Char.isDigit
      let n := Numeral.digits 10 digits
      if n < 256 then some ([UInt8.ofNat n], (c :: rest).drop digits.length) else none
    else (escape? c).map ([·], rest)

/-- The rest of a string between quotes and the characters after it, given that no more than
`rounds` characters follow. `read` is what was read, last byte first. -/
def quoted? (quote : Char) :
    (rounds : Nat) → (read : Bytes) → List Char → Option (Bytes × List Char)
  | 0, _, _ => none
  | _ + 1, _, [] => none
  | rounds + 1, read, c :: rest =>
    if c = quote then some (read.reverse, rest)
    else if c = '\\' then do
      let (bytes, rest) ← escaped? rest
      quoted? quote rounds (bytes.reverse ++ read) rest
    else if isLineEnd c then none
    else quoted? quote rounds ((bytesOf c).reverse ++ read) rest

/-! ## All tokens -/

/-- The characters after a comment, given those after its two dashes. -/
def afterComment? (cs : List Char) : Option (List Char) :=
  let line := cs.dropWhile (¬isLineEnd ·)
  match cs with
  | '[' :: rest =>
    match longBracket? rest with
    | some (level, rest) => (long? level rest).map (·.2)
    | none => some line
  | _ => some line

def punctuation? (cs : List Char) : Option (Token × List Char) :=
  (punctuation.find? fun mark ↦ mark.toList.isPrefixOf cs).map fun mark ↦
    (.fixed mark, cs.drop mark.length)

/-- The token that starts with `c`, and the characters after it. -/
def next? (c : Char) (rest : List Char) : Option (Token × List Char) :=
  if isNameStart c then
    let text := String.ofList (c :: rest.takeWhile isNameChar)
    some (if reserved.contains text then .fixed text else .name text, rest.dropWhile isNameChar)
  else if c.isDigit ∨ (c = '.' ∧ rest.head?.any Char.isDigit) then number? (c :: rest)
  else if c = '"' ∨ c = '\'' then
    (quoted? c (rest.length + 1) [] rest).map fun (bytes, rest) ↦ (.string bytes, rest)
  else if c = '[' then
    match longBracket? rest with
    | some (level, rest) => (long? level rest).map fun (bytes, rest) ↦ (.string bytes, rest)
    | none => if rest.head? = some '=' then none else some (.fixed "[", rest)
  else punctuation? (c :: rest)

/-- The tokens of some characters, given that no more than `rounds` characters are left. -/
def scan? : (rounds : Nat) → List Char → Option (List Token)
  | 0, _ => none
  | _ + 1, [] => some []
  | rounds + 1, c :: rest =>
    if Numeral.isSpace c then scan? rounds rest
    else if c = '-' ∧ rest.head? = some '-' then
      (afterComment? (rest.drop 1)).bind (scan? rounds)
    else do
      let (token, rest) ← next? c rest
      let tokens ← scan? rounds rest
      some (token :: tokens)

def ofText? (cs : List Char) : Option (List Token) :=
  scan? (cs.length + 1) cs

end Token

end Reactor.Script

import Reactor.Text.Hex
import Reactor.Yaml.Folding

/-!
# Quoted scalars

Between single quotes only the quote itself is special, and it is written twice. Between double
quotes a backslash starts an escape. In both, lines are folded.
-/

namespace Reactor.Yaml.Quoted

def escape? : Char → Option Char
  | '0' => some '\x00'
  | 'a' => some '\x07'
  | 'b' => some '\x08'
  | 't' => some '\t'
  | '\t' => some '\t'
  | 'n' => some '\n'
  | 'v' => some '\x0B'
  | 'f' => some '\x0C'
  | 'r' => some '\r'
  | 'e' => some '\x1B'
  | ' ' => some ' '
  | '"' => some '"'
  | '/' => some '/'
  | '\\' => some '\\'
  | 'N' => some '\u0085'
  | '_' => some '\u00A0'
  | 'L' => some '\u2028'
  | 'P' => some '\u2029'
  | _ => none

/-- The number of hexadecimal digits after the letter of a numeric escape. -/
def escapeLength? : Char → Option Nat
  | 'x' => some 2
  | 'u' => some 4
  | 'U' => some 8
  | _ => none

/-- The character with a code point, unless there is none. -/
def character? (code : Nat) : Option Char :=
  if code < 0xD800 ∨ (0xE000 ≤ code ∧ code < 0x110000) then some (Char.ofNat code) else none

/-- A numeric escape that is still being read. -/
structure NumericEscape where
  /-- How many digits are still missing. -/
  missing : Nat
  value : Nat
  /-- Where the digits start. -/
  start : Mark

/-- A quoted scalar that is still being read. -/
structure Progress where
  /-- What was read, last character first. -/
  read : List Char
  /-- The white space since then. -/
  gap : Gap
  mark : Mark
  escape : Option NumericEscape
  /-- Where the scalar starts. -/
  start : Mark

namespace Progress

/-- After a character of the text. The characters that it was written with end at `mark`. -/
def push (p : Progress) (c : Char) (mark : Mark) : Progress :=
  { p with read := c :: (p.gap.folded ++ p.read), gap := .none, mark, escape := none }

def space (p : Progress) (c : Char) : Progress :=
  { p with gap := p.gap.add c, mark := p.mark.past c }

def escapedBreak (p : Progress) : Progress :=
  { p with read := p.gap.folded ++ p.read, gap := ⟨[], [], true⟩, mark := p.mark.nextLine }

def close (p : Progress) (rest : List Char) : ScalarText :=
  ⟨String.ofList (p.gap.folded ++ p.read).reverse, false, ⟨rest, p.mark.after '"'⟩⟩

def fault (p : Progress) (problem : Problem) (context : Context) (mark : Mark) : Fault :=
  .malformed problem mark (some (context, p.start))

end Progress

/-- The rest of a scalar in single quotes. No document mark may start a line inside of it. -/
def readSingle (p : Progress) : List Char → Except Fault ScalarText
  | [] => .error (p.fault .endOfStream .quotedScalar p.mark)
  | c :: rest =>
    if isBlank c ∨ isBreak c then readSingle (p.space c) rest
    else if p.mark.column = 0 ∧ atDocumentMark (c :: rest) then
      .error (p.fault .documentMark .quotedScalar p.mark)
    else if c = '\'' then
      match rest with
      | '\'' :: rest => readSingle (p.push '\'' ((p.mark.after c).after c)) rest
      | _ => .ok (p.close rest)
    else readSingle (p.push c (p.mark.after c)) rest

def readDouble (p : Progress) : List Char → Except Fault ScalarText
  | [] =>
    match p.escape with
    | some escape => .error (p.fault .hexDigit .quotedText escape.start)
    | none => .error (p.fault .endOfStream .quotedScalar p.mark)
  | c :: rest =>
    match p.escape with
    | some escape =>
      match Text.hexValue? c with
      | none => .error (p.fault .hexDigit .quotedText escape.start)
      | some digit =>
        let value := 16 * escape.value + digit
        if escape.missing ≤ 1 then
          match character? value with
          | some char => readDouble (p.push char (p.mark.after c)) rest
          | none => .error (p.fault .invalidCode .quotedText escape.start)
        else
          readDouble
            { p with escape := some ⟨escape.missing - 1, value, escape.start⟩, mark := p.mark.after c }
            rest
    | none =>
      if isBlank c ∨ isBreak c then readDouble (p.space c) rest
      else if p.mark.column = 0 ∧ atDocumentMark (c :: rest) then
        .error (p.fault .documentMark .quotedScalar p.mark)
      else if c = '"' then .ok (p.close rest)
      else if c = '\\' then
        match rest with
        | [] => .error (p.fault .unknownEscape .quotedText p.mark)
        | letter :: rest =>
          let mark := (p.mark.after c).after letter
          if isBreak letter then readDouble p.escapedBreak rest
          else
            match escapeLength? letter with
            | some length => readDouble { p with escape := some ⟨length, 0, mark⟩, mark } rest
            | none =>
              match escape? letter with
              | some c => readDouble (p.push c mark) rest
              | none => .error (p.fault .unknownEscape .quotedText p.mark)
      else readDouble (p.push c (p.mark.after c)) rest

def read (cursor : Cursor) : Except Fault ScalarText :=
  let progress : Progress := ⟨[], .none, (cursor.advance 1).mark, none, cursor.mark⟩
  match cursor.rest with
  | '\'' :: rest => readSingle progress rest
  | rest => readDouble progress (rest.drop 1)

end Reactor.Yaml.Quoted

import Reactor.Yaml.Block
import Reactor.Yaml.Plain
import Reactor.Yaml.Quoted
import Reactor.Yaml.Token

/-!
# From characters to tokens

Two things are decided while a stream is cut into tokens. Indentation opens and closes block
collections: a deeper column opens one, a lesser column closes all that are deeper. And whether a
scalar, alias or flow collection is a key becomes known only at the colon after it, so the place
before it is remembered, and the tokens that announce a key are inserted there later. A key without
its own indicator has to end on the line on which it starts.
-/

namespace Reactor.Yaml

/-- A place at which a key may have started. -/
structure KeyCandidate where
  /-- How many tokens came before it. -/
  position : Nat
  mark : Mark
  /-- Whether nothing but a key can stand there. -/
  required : Bool

/-- The state between two tokens. -/
structure Lexer where
  cursor : Cursor
  /-- The tokens found so far, last one first. -/
  tokens : List Lexeme
  /-- The number of these tokens. -/
  count : Nat
  /-- The columns of the open block collections, innermost first. -/
  indents : List Nat
  /-- Whether a key may start here. -/
  keyAllowed : Bool
  /-- Where a key may have started in the innermost flow collection, or outside of all. -/
  candidate : Option KeyCandidate
  /-- The same for the flow collections around it, innermost first, and for the outside. -/
  outer : List (Option KeyCandidate)

namespace Lexer

def inFlow (s : Lexer) : Bool :=
  !s.outer.isEmpty

/-- The least column of what belongs to the innermost block collection. -/
def childIndent (s : Lexer) : Nat :=
  s.indents.head?.elim 0 (· + 1)

/-- After a token that starts here and ends at some place. -/
def emit (s : Lexer) (token : Token) (cursor : Cursor) : Lexer :=
  { s with
    tokens := ⟨token, s.cursor.mark⟩ :: s.tokens, count := s.count + 1, cursor := cursor }

def insertAt (s : Lexer) (position : Nat) (lexeme : Lexeme) : Lexer :=
  let (later, earlier) := s.tokens.splitAt (s.count - position)
  { s with tokens := later ++ lexeme :: earlier, count := s.count + 1 }

/-! ## Indentation -/

/-- The number of open block collections that are deeper than a column. -/
def deeper (s : Lexer) (column : Nat) : Nat :=
  (s.indents.takeWhile (column < ·)).length

def close (s : Lexer) (levels : Nat) : Lexer :=
  { s with
    tokens := List.replicate levels ⟨.blockEnd, s.cursor.mark⟩ ++ s.tokens
    count := s.count + levels, indents := s.indents.drop levels }

/-- With all block collections closed that are deeper than a column. -/
def closeTo (s : Lexer) (column : Nat) : Lexer :=
  if s.inFlow then s else s.close (s.deeper column)

def closeAll (s : Lexer) : Lexer :=
  if s.inFlow then s else s.close s.indents.length

/-- With a block collection opened at a place, unless one is open in its column. Its token goes
after the first `position` tokens. -/
def openAt (s : Lexer) (mark : Mark) (position : Nat) (token : Token) : Lexer :=
  if s.inFlow ∨ mark.column < s.childIndent then s
  else { s.insertAt position ⟨token, mark⟩ with indents := mark.column :: s.indents }

/-! ## Keys -/

/-- The fault that a required candidate turns out not to be a key. -/
def missingColon (s : Lexer) (candidate : KeyCandidate) : Fault :=
  s.cursor.fault .colonMissing .keyCandidate candidate.mark

/-- Gives up the candidate, unless it is required. -/
def dropCandidate (s : Lexer) : Except Fault Lexer :=
  match s.candidate.filter (·.required) with
  | some candidate => .error (s.missingColon candidate)
  | none => .ok { s with candidate := none }

/-- Remembers this place as a candidate, if a key may start here. -/
def saveCandidate (s : Lexer) : Except Fault Lexer :=
  if s.keyAllowed then
    let required := !s.inFlow && s.indents.head? = some s.cursor.mark.column
    s.dropCandidate.map
      ({ · with candidate := some ⟨s.count, s.cursor.mark, required⟩ })
  else .ok s

/-- The number of bytes that a key without an indicator may take. -/
def maxKeyLength : Nat :=
  1024

def isStale (mark : Mark) (candidate : KeyCandidate) : Bool :=
  candidate.mark.line < mark.line || candidate.mark.byte + maxKeyLength < mark.byte

/-- Gives up all candidates that cannot be keys any more. -/
def dropStale (s : Lexer) : Except Fault Lexer :=
  let stale (c : Option KeyCandidate) : Option KeyCandidate := c.filter (isStale s.cursor.mark)
  match (s.outer.reverse ++ [s.candidate]).findSome? fun c ↦ (stale c).filter (·.required) with
  | some candidate => .error (s.missingColon candidate)
  | none =>
    let fresh (c : Option KeyCandidate) : Option KeyCandidate :=
      if (stale c).isSome then none else c
    .ok { s with candidate := fresh s.candidate, outer := s.outer.map fresh }

/-! ## White space -/

/-- The next place at which a token starts, or the end. A new line outside of flow collections
allows a key. A byte order mark is passed over at the start of a line. -/
def skipSpace (flow keyAllowed inComment : Bool) (mark : Mark) : List Char → Cursor × Bool
  | [] => (⟨[], mark⟩, keyAllowed)
  | c :: rest =>
    if isBreak c then skipSpace flow (keyAllowed || !flow) false mark.nextLine rest
    else if inComment ∨ c = '#' then skipSpace flow keyAllowed true (mark.after c) rest
    else if c = ' ' ∨ (c = '\t' ∧ (flow ∨ ¬keyAllowed)) ∨ (c = '\uFEFF' ∧ mark.column = 0) then
      skipSpace flow keyAllowed false (mark.after c) rest
    else (⟨c :: rest, mark⟩, keyAllowed)

/-- The state at the next token or at the end. -/
def toToken (s : Lexer) : Except Fault Lexer := do
  let (cursor, keyAllowed) := skipSpace s.inFlow s.keyAllowed false s.cursor.mark s.cursor.rest
  let s ← dropStale { s with cursor, keyAllowed }
  .ok (s.closeTo cursor.mark.column)

/-! ## Single tokens -/

/-- The tokens of a document mark or a directive, before which all collections end. `read` reads it
at the cursor. -/
def topLevel (s : Lexer) (read : Cursor → Except Fault (Token × Cursor)) : Except Fault Lexer := do
  let s ← s.closeAll.dropCandidate
  let (token, cursor) ← read s.cursor
  .ok { s.emit token cursor with keyAllowed := false }

/-- The start of a flow collection, which may be a key. -/
def openFlow (s : Lexer) (token : Token) : Except Fault Lexer :=
  s.saveCandidate.map fun s ↦
    { s.emit token (s.cursor.advance 1) with
      keyAllowed := true, candidate := none, outer := s.candidate :: s.outer }

def closeFlow (s : Lexer) (token : Token) : Except Fault Lexer :=
  s.dropCandidate.map fun s ↦
    { s.emit token (s.cursor.advance 1) with
      keyAllowed := false, candidate := s.outer.head?.join, outer := s.outer.drop 1 }

def flowEntry (s : Lexer) : Except Fault Lexer :=
  s.dropCandidate.map fun s ↦ { s.emit .flowEntry (s.cursor.advance 1) with keyAllowed := true }

/-- An indicator that opens a block collection in its column, if it stands outside of flow
collections and a key may start there. -/
def openBlock (s : Lexer) (token : Token) (problem : Problem) : Except Fault Lexer :=
  if s.inFlow then .ok s
  else if s.keyAllowed then .ok (s.openAt s.cursor.mark s.count token)
  else .error (.malformed problem s.cursor.mark none)

def blockEntry (s : Lexer) : Except Fault Lexer := do
  let s ← s.openBlock .blockSequenceStart .sequenceNotAllowed
  let s ← s.dropCandidate
  .ok { s.emit .blockEntry (s.cursor.advance 1) with keyAllowed := true }

def key (s : Lexer) : Except Fault Lexer := do
  let s ← s.openBlock .blockMappingStart .keyNotAllowed
  let s ← s.dropCandidate
  .ok { s.emit .key (s.cursor.advance 1) with keyAllowed := !s.inFlow }

/-- The colon before a value. What started at the candidate turns out to be a key. -/
def value (s : Lexer) : Except Fault Lexer :=
  match s.candidate with
  | some candidate =>
    let s := (s.insertAt candidate.position ⟨.key, candidate.mark⟩).openAt candidate.mark
      candidate.position .blockMappingStart
    .ok { s.emit .value (s.cursor.advance 1) with candidate := none, keyAllowed := false }
  | none =>
    (s.openBlock .blockMappingStart .valueNotAllowed).map fun s ↦
      { s.emit .value (s.cursor.advance 1) with keyAllowed := !s.inFlow }

/-- A token that may be a key or belong to one. `read` reads it at the cursor. -/
def keyPart (s : Lexer) (read : Cursor → Except Fault (Token × Cursor)) : Except Fault Lexer := do
  let s ← s.saveCandidate
  let (token, cursor) ← read s.cursor
  .ok { s.emit token cursor with keyAllowed := false }

def quoted (s : Lexer) : Except Fault Lexer :=
  s.keyPart fun cursor ↦
    (Quoted.read cursor).map fun scalar ↦ (.scalar scalar.text false, scalar.cursor)

/-- A plain scalar. A key may start after it if it ends at a line break. -/
def plain (s : Lexer) : Except Fault Lexer := do
  let s ← s.saveCandidate
  let scalar ← Plain.read ⟨s.inFlow, s.childIndent⟩ s.cursor
  .ok { s.emit (.scalar scalar.text true) scalar.cursor with keyAllowed := scalar.brokenAfter }

/-- A block scalar, which is never a key. -/
def blockScalar (s : Lexer) : Except Fault Lexer := do
  let s ← s.dropCandidate
  let scalar ← Block.read s.childIndent s.cursor
  .ok { s.emit (.scalar scalar.text false) scalar.cursor with keyAllowed := true }

/-- Whether a character is an indicator, which starts no plain scalar by itself. -/
def isIndicator (c : Char) : Bool :=
  "-?:,[]\x7b\x7d#&*!|>'\"%@\x60".toList.contains c

def startsPlain (flow : Bool) (c : Char) (rest : List Char) : Bool :=
  (!isIndicator c && !isBlank c) || (c = '-' && !rest.head?.any isBlank) ||
    (!flow && (c = '?' || c = ':') && !atWordEnd rest)

def next (s : Lexer) (c : Char) (rest : List Char) : Except Fault Lexer :=
  if s.cursor.mark.column = 0 ∧ c = '%' then s.topLevel Token.directive
  else if s.cursor.mark.column = 0 ∧ atDocumentMark (c :: rest) then
    s.topLevel fun cursor ↦
      .ok (if c = '-' then .documentStart else .documentEnd, cursor.advance 3)
  else if c = '[' then s.openFlow .flowSequenceStart
  else if c = '{' then s.openFlow .flowMappingStart
  else if c = ']' then s.closeFlow .flowSequenceEnd
  else if c = '}' then s.closeFlow .flowMappingEnd
  else if c = ',' then s.flowEntry
  else if c = '-' ∧ atWordEnd rest then s.blockEntry
  else if c = '?' ∧ (s.inFlow ∨ atWordEnd rest) then s.key
  else if c = ':' ∧ (s.inFlow ∨ atWordEnd rest) then s.value
  else if c = '*' then
    s.keyPart fun cursor ↦
      (Token.anchorName .reference cursor).map fun (name, after) ↦ (.reference name, after)
  else if c = '&' then
    s.keyPart fun cursor ↦
      (Token.anchorName .anchor cursor).map fun (name, after) ↦ (.anchor name, after)
  else if c = '!' then
    s.keyPart fun cursor ↦
      (Token.readTag s.inFlow cursor).map fun (name, after) ↦ (.tag name, after)
  else if (c = '|' ∨ c = '>') ∧ ¬s.inFlow then s.blockScalar
  else if c = '\'' ∨ c = '"' then s.quoted
  else if startsPlain s.inFlow c rest then s.plain
  else .error (s.cursor.fault .noToken .nextToken s.cursor.mark)

/-- The state after the end of the stream, which counts as the start of a line. -/
def finish (s : Lexer) : Except Fault Lexer := do
  let mark := s.cursor.mark
  let s := { s with cursor := ⟨[], if mark.column = 0 then mark else mark.nextLine⟩ }
  let s ← s.closeAll.dropCandidate
  .ok (s.emit .streamEnd s.cursor)

/-- The state after the next token, and whether the stream ends with it. -/
def step (s : Lexer) : Except Fault (Lexer × Bool) := do
  let s ← s.toToken
  match s.cursor.rest with
  | [] => (·, true) <$> s.finish
  | c :: rest => (·, false) <$> s.next c rest

/-- How many of the tokens found so far are certain. Before a token at which a key may have started,
a token may still be inserted. -/
def certain (s : Lexer) : Nat :=
  (s.candidate :: s.outer).foldl
    (fun n c ↦ c.elim n fun candidate ↦ min n candidate.position) s.count

/-- The tokens up to a fault in the text. -/
def breakOff (s : Lexer) (fault : Fault) : List Lexeme :=
  (⟨.broken fault, s.cursor.mark⟩ :: s.tokens.drop (s.count - s.certain)).reverse

/-- The tokens up to the end, given that at most `rounds` tokens follow. -/
def run : Nat → Lexer → List Lexeme
  | 0, s => s.tokens.reverse
  | rounds + 1, s =>
    match s.dropStale with
    | .error fault => s.breakOff fault
    | .ok s =>
      match s.step with
      | .error fault => s.breakOff fault
      | .ok (s, true) => s.tokens.reverse
      | .ok (s, false) => run rounds s

def start (cs : List Char) : Lexer :=
  ⟨⟨cs, .start⟩, [], 0, [], true, none, []⟩

end Lexer

/-- How many bytes stand before the first character that is not allowed in a stream. -/
def forbidden? (offset : Nat) : List Char → Option Nat
  | [] => none
  | c :: rest => if isAllowed c then forbidden? (offset + c.utf8Size) rest else some offset

/-- The tokens of a stream. Every token takes at least one character, so there are not more tokens
than characters. -/
def Token.ofText (text : String) : List Lexeme :=
  let cs := text.toList
  match forbidden? 0 cs with
  | some offset => [⟨.broken (.character offset), .start⟩]
  | none => (Lexer.start (unifyBreaks cs)).run (cs.length + 1)

end Reactor.Yaml

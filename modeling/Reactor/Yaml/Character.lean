import Reactor.Yaml.Fault

/-!
# Characters of a YAML stream

The classes of characters that the rules of the syntax refer to, the form in which line ends are
kept, and places in a stream.
-/

namespace Reactor.Yaml

/-- Whether a character may stand in a stream at all. -/
def isAllowed (c : Char) : Bool :=
  let n := c.toNat
  n = 0x09 || n = 0x0A || n = 0x0D || (0x20 ≤ n && n ≤ 0x7E) || n = 0x85 ||
    (0xA0 ≤ n && n ≤ 0xFFFD) || 0x10000 ≤ n

/-- Spaces and tabs separate words within a line. -/
def isBlank (c : Char) : Bool :=
  c = ' ' || c = '\t'

/-- The characters that end a line, once line ends are written in one form. -/
def isBreak (c : Char) : Bool :=
  c = '\n' || c = '\u2028' || c = '\u2029'

/-- The characters of anchors, tag handles and directive names. -/
def isNameChar (c : Char) : Bool :=
  c.isAlphanum || c = '-' || c = '_'

/-- Writes every line end as a line feed. Line and paragraph separators stay as they are. -/
def unifyBreaks : List Char → List Char
  | '\r' :: '\n' :: rest => '\n' :: unifyBreaks rest
  | '\r' :: rest => '\n' :: unifyBreaks rest
  | '\u0085' :: rest => '\n' :: unifyBreaks rest
  | c :: rest => c :: unifyBreaks rest
  | [] => []

def atWordEnd : List Char → Bool
  | [] => true
  | c :: _ => isBlank c || isBreak c

/-- Whether the given characters, at the start of a line, begin with the mark `---` or `...`. -/
def atDocumentMark : List Char → Bool
  | '-' :: '-' :: '-' :: rest => atWordEnd rest
  | '.' :: '.' :: '.' :: rest => atWordEnd rest
  | _ => false

/-- The place after a character, which may end a line. -/
def Mark.past (mark : Mark) (c : Char) : Mark :=
  if isBreak c then mark.nextLine else mark.after c

/-- A place in a stream, with what follows it. -/
structure Cursor where
  rest : List Char
  mark : Mark

namespace Cursor

/-- The place after a number of characters of the same line. -/
def advance (cursor : Cursor) (count : Nat) : Cursor :=
  ⟨cursor.rest.drop count, (cursor.rest.take count).foldl Mark.after cursor.mark⟩

/-- The characters from a place on that satisfy `p`, and the place after them. None of them may
end a line. -/
def span (cursor : Cursor) (p : Char → Bool) : List Char × Cursor :=
  let read := cursor.rest.takeWhile p
  (read, ⟨cursor.rest.dropWhile p, read.foldl Mark.after cursor.mark⟩)

/-- The place after characters that satisfy `p`, none of which may end a line. -/
def skip (cursor : Cursor) (p : Char → Bool) : Cursor :=
  (cursor.span p).2

def lineEnd (cursor : Cursor) : Cursor :=
  cursor.skip (¬isBreak ·)

def nextLine (cursor : Cursor) : Cursor :=
  ⟨cursor.rest.drop 1, cursor.mark.nextLine⟩

def fault (cursor : Cursor) (problem : Problem) (context : Context) (start : Mark) : Fault :=
  .malformed problem cursor.mark (some (context, start))

/-- The start of the next line, or the end of the stream, given that only blanks and a comment
follow on this line. -/
def finishLine (cursor : Cursor) (context : Context) (start : Mark) : Except Fault Cursor :=
  let cursor := cursor.skip isBlank
  let cursor := if cursor.rest.head? = some '#' then cursor.lineEnd else cursor
  match cursor.rest with
  | [] => .ok cursor
  | c :: _ =>
    if isBreak c then .ok cursor.nextLine else .error (cursor.fault .lineEnd context start)

end Cursor

end Reactor.Yaml

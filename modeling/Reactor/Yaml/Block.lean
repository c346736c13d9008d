import Reactor.Yaml.Folding

/-!
# Block scalars

A block scalar is the text of the indented lines below its header. In a literal scalar line breaks
are kept; in a folded one a single line break between two lines that do not start with a blank
stands for a space. The header chooses what becomes of the line breaks at the end.
-/

namespace Reactor.Yaml.Block

/-- What becomes of the line breaks after the last line. -/
inductive Chomping where
  /-- All of them are dropped. -/
  | strip
  /-- The first one is kept. -/
  | clip
  /-- All of them are kept. -/
  | keep
  deriving DecidableEq

structure Header where
  literal : Bool
  chomping : Chomping
  /-- The indentation relative to the surrounding block, if it is given. -/
  increment : Option Nat

def chomping? : Char → Option Chomping
  | '+' => some .keep
  | '-' => some .strip
  | _ => none

def increment? (c : Char) : Option Nat :=
  if c.isDigit then some (c.toNat - '0'.toNat) else none

/-- The chomping and the indentation of a header, in either order, and how many characters they
take. -/
def indicators (cs : List Char) : Option Chomping × Option Nat × Nat :=
  match cs with
  | [] => (none, none, 0)
  | c :: rest =>
    match chomping? c, increment? c with
    | some chomping, _ =>
      match rest.head?.bind increment? with
      | some increment => (some chomping, some increment, 2)
      | none => (some chomping, none, 1)
    | none, some increment =>
      match rest.head?.bind chomping? with
      | some chomping => (some chomping, some increment, 2)
      | none => (none, some increment, 1)
    | none, none => (none, none, 0)

/-- How many of the indicators after a bar stand before the indentation. -/
def beforeIncrement (cs : List Char) : Nat :=
  (cs.takeWhile fun c ↦ (chomping? c).isSome).length

/-- The header at a place, and the place after its line. -/
def header (cursor : Cursor) : Except Fault (Header × Cursor) :=
  let literal := cursor.rest.head? = some '|'
  let after := cursor.rest.drop 1
  let (chomping, increment, count) := indicators after
  if increment = some 0 then
    .error ((cursor.advance (1 + beforeIncrement after)).fault .zeroIndentation .blockScalar
      cursor.mark)
  else ((cursor.advance (1 + count)).finishLine .blockScalar cursor.mark).map
    (⟨literal, chomping.getD .clip, increment⟩, ·)

/-- A block scalar that is still being read. -/
structure Progress where
  /-- What was read, last character first. -/
  read : List Char
  /-- The line break after the last line, if there is one. -/
  leading : List Char
  /-- The line breaks after that one, last one first. -/
  trailing : List Char
  /-- Whether the last line starts with a blank. -/
  blankStart : Bool
  /-- The indentation of the lines, once it is known. -/
  indent : Option Nat
  /-- The widest run of spaces before the first line. -/
  widest : Nat
  mark : Mark

namespace Progress

/-- Whether a column is still part of the indentation. -/
def isMargin (p : Progress) : Bool :=
  p.indent.all (p.mark.column < ·)

/-- The indentation, which the first line decides if the header does not. It is more than that of
the surrounding block. -/
def indentation (p : Progress) (least : Nat) : Nat :=
  p.indent.getD (max (max p.widest p.mark.column) (max least 1))

/-- The line breaks before a further line, last one first. -/
def join (p : Progress) (literal blankNext : Bool) : List Char :=
  if ¬literal ∧ p.leading = ['\n'] ∧ ¬p.blankStart ∧ ¬blankNext then
    if p.trailing.isEmpty then [' '] else p.trailing
  else p.trailing ++ p.leading

def startLine (p : Progress) (literal : Bool) (indent : Nat) (c : Char) : Progress :=
  { p with
    read := c :: (p.join literal (isBlank c) ++ p.read)
    leading := [], trailing := [], blankStart := isBlank c, indent := some indent
    mark := p.mark.after c }

def finish (p : Progress) (chomping : Chomping) (rest : List Char) : ScalarText :=
  let tail :=
    match chomping with
    | .strip => []
    | .clip => p.leading
    | .keep => p.trailing ++ p.leading
  ⟨String.ofList (tail ++ p.read).reverse, false, ⟨rest, p.mark⟩⟩

end Progress

/-- The rest of a block scalar that starts at the place `start` and whose lines are indented to at
least the column `least`. `inLine` tells a place within a line from one before a line. -/
def readFrom (start : Mark) (header : Header) (least : Nat) (inLine : Bool) (p : Progress) :
    List Char → Except Fault ScalarText
  | [] => .ok (p.finish header.chomping [])
  | c :: rest =>
    if inLine then
      if isBreak c then
        readFrom start header least false { p with leading := [c], mark := p.mark.nextLine } rest
      else
        readFrom start header least true { p with read := c :: p.read, mark := p.mark.after c } rest
    else if c = ' ' ∧ p.isMargin then
      readFrom start header least false { p with mark := p.mark.after c } rest
    else if c = '\t' ∧ p.isMargin then
      .error (Cursor.fault ⟨c :: rest, p.mark⟩ .tabInIndentation .blockScalar start)
    else if isBreak c then
      readFrom start header least false
        { p with
          trailing := c :: p.trailing, widest := max p.widest p.mark.column
          mark := p.mark.nextLine } rest
    else
      let indent := p.indentation least
      if p.mark.column = indent then
        readFrom start header least true (p.startLine header.literal indent c) rest
      else .ok (p.finish header.chomping (c :: rest))

/-- The block scalar at a place, in a block whose children are indented to at least the column
`least`. -/
def read (least : Nat) (cursor : Cursor) : Except Fault ScalarText := do
  let (header, after) ← header cursor
  let indent := header.increment.map fun increment ↦ least - 1 + increment
  readFrom cursor.mark header least false ⟨[], [], [], false, indent, 0, after.mark⟩ after.rest

end Reactor.Yaml.Block

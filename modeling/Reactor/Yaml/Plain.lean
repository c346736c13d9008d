import Reactor.Yaml.Folding

/-!
# Plain scalars

A plain scalar is written without quotes. It ends before a colon that ends a word, before a
comment, before a line that is not indented more than the surrounding block, before a document
mark, and inside flow collections before their punctuation.
-/

namespace Reactor.Yaml.Plain

structure Context where
  /-- Whether it is inside a flow collection. -/
  inFlow : Bool
  /-- The least column at which the scalar can go on after a line break. -/
  indent : Nat

def isFlowPunctuation (c : Char) : Bool :=
  c = ',' || c = '[' || c = ']' || c = '{' || c = '}'

/-- Whether a scalar ends before the word character `c`, within a line. -/
def endsBefore (context : Context) (c : Char) (rest : List Char) : Bool :=
  (c = ':' && atWordEnd rest) || (context.inFlow && isFlowPunctuation c)

/-- Whether a colon inside a flow collection is directly followed by what cannot follow it. -/
def isMisplacedColon (context : Context) (c : Char) (rest : List Char) : Bool :=
  context.inFlow && c = ':' && rest.head?.any fun next ↦ next = '?' || isFlowPunctuation next

/-- Whether a scalar ends after a gap, before the word that starts with `c` in some column. -/
def endsAfterGap (context : Context) (column : Nat) (c : Char) (rest : List Char) : Bool :=
  c = '#' || (column = 0 && atDocumentMark (c :: rest)) ||
    (!context.inFlow && column < context.indent)

/-- The scalar from the given characters on, which starts at the place `start`. `read` is what was
read of it, last character first, and `gap` the white space since then. -/
def readFrom (context : Context) (start : Mark) (read : List Char) (gap : Gap) (mark : Mark) :
    List Char → Except Fault ScalarText
  | [] => .ok ⟨String.ofList read.reverse, gap.isBroken, ⟨[], mark⟩⟩
  | c :: rest =>
    let finish : ScalarText := ⟨String.ofList read.reverse, gap.isBroken, ⟨c :: rest, mark⟩⟩
    let fault (problem : Problem) : Fault :=
      Cursor.fault ⟨c :: rest, mark⟩ problem .plainScalar start
    if isBreak c then readFrom context start read (gap.add c) mark.nextLine rest
    else if isBlank c then
      if c = '\t' ∧ gap.isBroken ∧ mark.column < context.indent then .error (fault .tabBeforeText)
      else readFrom context start read (gap.add c) (mark.after c) rest
    else if ¬gap.isNone ∧ endsAfterGap context mark.column c rest then .ok finish
    else if isMisplacedColon context c rest then .error (fault .colonInFlow)
    else if endsBefore context c rest then .ok finish
    else readFrom context start (c :: (gap.folded ++ read)) .none (mark.after c) rest

def read (context : Context) (cursor : Cursor) : Except Fault ScalarText :=
  readFrom context cursor.mark [] .none cursor.mark cursor.rest

end Reactor.Yaml.Plain

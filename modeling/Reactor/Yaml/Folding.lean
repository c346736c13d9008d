import Reactor.Yaml.Character

/-!
# Folding of lines

In plain and quoted scalars a single line break between two words stands for a space, and of
several line breaks all but the first are kept. Blanks around line breaks are dropped; without a
line break they are kept.
-/

namespace Reactor.Yaml

/-- The white space between two words of a scalar. -/
structure Gap where
  /-- The blanks before the first line break, last one first. -/
  blanks : List Char
  /-- The line breaks, last one first. -/
  breaks : List Char
  /-- Whether an escaped line break comes first. It stands for nothing, and all others are kept. -/
  escaped : Bool

namespace Gap

def none : Gap :=
  ⟨[], [], false⟩

def isBroken (gap : Gap) : Bool :=
  gap.escaped || !gap.breaks.isEmpty

def isNone (gap : Gap) : Bool :=
  gap.blanks.isEmpty && !gap.isBroken

/-- The gap with one more blank or line break at its end. -/
def add (gap : Gap) (c : Char) : Gap :=
  if isBreak c then { gap with blanks := [], breaks := c :: gap.breaks }
  else if gap.isBroken then gap
  else { gap with blanks := c :: gap.blanks }

/-- What the gap stands for, last character first. -/
def folded (gap : Gap) : List Char :=
  if gap.escaped then gap.breaks
  else if gap.breaks.isEmpty then gap.blanks
  else if gap.breaks = ['\n'] then [' ']
  else if gap.breaks.getLast? = some '\n' then gap.breaks.dropLast
  else gap.breaks

end Gap

/-- The text of a scalar that was read up to some place. -/
structure ScalarText where
  text : String
  /-- Whether the scalar was found to end only on a later line than its last word. -/
  brokenAfter : Bool
  cursor : Cursor

end Reactor.Yaml

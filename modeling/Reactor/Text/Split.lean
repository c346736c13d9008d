/-!
# Splitting a text at a separator

A text with `n` separators has `n + 1` parts, some of which may be empty.
-/

namespace Reactor.Text

/-- The maximal runs of characters that differ from `separator`. -/
def splitChars (separator : Char) : List Char → List (List Char)
  | [] => [[]]
  | c :: cs =>
    if c = separator then [] :: splitChars separator cs
    else
      match splitChars separator cs with
      | [] => [[c]]
      | part :: parts => (c :: part) :: parts

/-- The parts of a text between the occurrences of `separator`. -/
def split (separator : Char) (s : String) : List String :=
  (splitChars separator s.toList).map String.ofList

def firstLine (s : String) : String :=
  String.ofList (s.toList.takeWhile (· ≠ '\n'))

theorem splitChars_ne_nil (separator : Char) (cs : List Char) : splitChars separator cs ≠ [] := by
  cases cs with
  | nil => simp [splitChars]
  | cons c cs =>
    unfold splitChars
    split
    · simp
    · split <;> simp

end Reactor.Text

/-!
# White space

The characters that have the Unicode property `White_Space`, and removal of such characters from
both ends of a text. Names, coordinates and module lists are read with their ends trimmed in this
sense, so a no-break space counts as blank and a zero-width space does not.
-/

namespace Reactor.Text

/-- The code points with the property `White_Space`, as closed ranges in increasing order. -/
def blankRanges : List (Nat × Nat) :=
  [(0x09, 0x0D), (0x20, 0x20), (0x85, 0x85), (0xA0, 0xA0), (0x1680, 0x1680), (0x2000, 0x200A),
    (0x2028, 0x2029), (0x202F, 0x202F), (0x205F, 0x205F), (0x3000, 0x3000)]

def isBlank (c : Char) : Bool :=
  blankRanges.any fun range ↦ range.1 ≤ c.toNat && c.toNat ≤ range.2

/-- A list of characters without the white space at its two ends. -/
def trimChars (cs : List Char) : List Char :=
  ((cs.dropWhile isBlank).reverse.dropWhile isBlank).reverse

/-- A text without the white space at its two ends. -/
def trim (s : String) : String :=
  String.ofList (trimChars s.toList)

def isBlankText (s : String) : Bool :=
  s.toList.all isBlank

end Reactor.Text

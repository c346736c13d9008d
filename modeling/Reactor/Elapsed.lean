/-!
# Elapsed time

Spans of time are counted in nanoseconds. A span is shown in the largest of the units second,
millisecond, microsecond and nanosecond that it reaches, as a decimal fraction without trailing
zeros.
-/

namespace Reactor

abbrev Nanoseconds := Nat

namespace Nanoseconds

def ofMillis (count : Nat) : Nanoseconds :=
  count * 1000000

def ofMicros (count : Nat) : Nanoseconds :=
  count * 1000

/-- The digits after the point of `part / 10 ^ width`, less the zeros at the end. -/
def fractionText (part width : Nat) : String :=
  let digits := toString part
  let padded := List.replicate (width - digits.length) '0' ++ digits.toList
  let kept := (padded.reverse.dropWhile (· = '0')).reverse
  if kept.isEmpty then "" else "." ++ String.ofList kept

/-- A span in a unit of `10 ^ width` nanoseconds. -/
def inUnit (span : Nanoseconds) (width : Nat) (unit : String) : String :=
  toString (span / Nat.pow 10 width) ++ fractionText (span % Nat.pow 10 width) width ++ unit

def text (span : Nanoseconds) : String :=
  if 1000000000 ≤ span then inUnit span 9 "s"
  else if 1000000 ≤ span then inUnit span 6 "ms"
  else if 1000 ≤ span then inUnit span 3 "µs"
  else toString span ++ "ns"

end Nanoseconds

end Reactor

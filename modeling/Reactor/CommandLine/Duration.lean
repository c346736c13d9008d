import Reactor.Elapsed
import Reactor.Text.Blank

/-!
# Spans of time on the command line

A span is written as a row of numbers with units, such as `1h 5m` or `4.2s`, or as a plain `0`. A
span is shown in the same way, from the largest unit down.
-/

namespace Reactor.CommandLine

def second : Nanoseconds :=
  1000000000

/-- Spans must be shorter than `2 ^ 64` seconds. -/
def spanBound : Nanoseconds :=
  0x10000000000000000 * second

/-- The bound on every count that is met while a span is added up. -/
def countBound : Nat :=
  0x10000000000000000

/-- A unit of time. Whole units and parts of a unit are each counted in nanoseconds or in seconds,
and what is counted must be a whole number that fits 64 bits. -/
structure TimeUnit where
  /-- What whole units are counted in. -/
  wholeStep : Nanoseconds
  /-- What parts of a unit are counted in, if there may be any. -/
  partStep : Option Nanoseconds
  length : Nanoseconds

namespace TimeUnit

/-- A unit of at least an hour, which is counted in seconds. -/
def ofSeconds (seconds : Nat) : TimeUnit :=
  ⟨second, some second, seconds * second⟩

/-- The unit with the given name. A month is 30.44 days and a year 365.25 days. -/
def ofName? (name : String) : Option TimeUnit :=
  if ["nanos", "nsec", "ns"].contains name then some ⟨1, none, 1⟩
  else if ["usec", "us", "µs"].contains name then some ⟨1, some 1, 1000⟩
  else if ["millis", "msec", "ms"].contains name then some ⟨1, some 1, 1000000⟩
  else if ["seconds", "second", "secs", "sec", "s"].contains name then
    some ⟨second, some 1, second⟩
  else if ["minutes", "minute", "min", "mins", "m"].contains name then
    some ⟨second, some 1, 60 * second⟩
  else if ["hours", "hour", "hr", "hrs", "h"].contains name then some (ofSeconds 3600)
  else if ["days", "day", "d"].contains name then some (ofSeconds 86400)
  else if ["weeks", "week", "wk", "wks", "w"].contains name then some (ofSeconds 604800)
  else if ["months", "month", "M"].contains name then some (ofSeconds 2630016)
  else if ["years", "year", "yr", "yrs", "y"].contains name then some (ofSeconds 31557600)
  else none

/-- The length of `number / divisor` units, counted in steps of the given length. The count must fit
64 bits before it is divided, and the division must leave nothing. -/
def count? (unit : TimeUnit) (step : Nanoseconds) (number divisor : Nat) : Option Nanoseconds :=
  let count := number * (unit.length / step)
  if count < countBound ∧ count % divisor = 0 then some (count / divisor * step) else none

end TimeUnit

/-- The sum of a span and a number of steps. The nanoseconds below a second must fit 64 bits
together with nanoseconds that are added, and the sum must be a span. -/
def addSteps? (total step length : Nanoseconds) : Option Nanoseconds :=
  if (step = 1 → total % second + length < countBound) ∧ total + length < spanBound then
    some (total + length)
  else none

def numberOf (digits : List Char) : Nat :=
  digits.foldl (fun n c ↦ 10 * n + (c.toNat - '0'.toNat)) 0

/-- The number with the given digits, if it fits 64 bits. -/
def boundedNumber? (digits : List Char) : Option Nat :=
  let n := numberOf digits
  if n < countBound then some n else none

/-- A span with a number of units added to it, given by its whole part and the digits of its
fraction, if there is one. The digits must be few enough for their power of ten to fit 64 bits. -/
def addUnits? (total : Nanoseconds) (whole : Nat) (fraction : Option (List Char)) (name : String) :
    Option Nanoseconds := do
  let unit ← TimeUnit.ofName? name
  let length ← unit.count? unit.wholeStep whole 1
  let total ← addSteps? total unit.wholeStep length
  match fraction with
  | none => some total
  | some digits =>
    let step ← unit.partStep
    let divisor := Nat.pow 10 digits.length
    if divisor < countBound then
      let length ← unit.count? step (numberOf digits) divisor
      addSteps? total step length
    else none

/-- Where a scan of a span stands. Characters read so far are in reverse order. -/
inductive DurationScan where
  /-- Before a number. -/
  | start
  /-- Inside the whole part of a number. -/
  | whole (digits : List Char)
  /-- Inside the fraction of a number. -/
  | fraction (whole : Nat) (digits : List Char)
  /-- Inside a unit that belongs to a number. -/
  | unit (whole : Nat) (fraction : Option (List Char)) (name : List Char)

/-- Whether a character may stand in the name of a unit. -/
def isUnitChar (c : Char) : Bool :=
  c.isAlpha || c = 'µ'

/-- The span `total` with the spans from the given position on added to it. -/
def scanDuration (total : Nanoseconds) : DurationScan → List Char → Option Nanoseconds
  | .start, [] => some total
  | .start, c :: rest =>
    if c.isDigit then scanDuration total (.whole [c]) rest
    else if Text.isBlank c then scanDuration total .start rest
    else none
  | .whole _, [] => none
  | .whole digits, c :: rest =>
    if c.isDigit then scanDuration total (.whole (c :: digits)) rest
    else if Text.isBlank c then scanDuration total (.whole digits) rest
    else do
      let whole ← boundedNumber? digits.reverse
      if c = '.' then scanDuration total (.fraction whole []) rest
      else if isUnitChar c then scanDuration total (.unit whole none [c]) rest
      else none
  | .fraction _ _, [] => none
  | .fraction whole digits, c :: rest =>
    if c.isDigit then scanDuration total (.fraction whole (c :: digits)) rest
    else if Text.isBlank c then scanDuration total (.fraction whole digits) rest
    else if isUnitChar c ∧ ¬digits.isEmpty then
      scanDuration total (.unit whole (some digits.reverse) [c]) rest
    else none
  | .unit whole fraction name, [] =>
    addUnits? total whole fraction (String.ofList name.reverse)
  | .unit whole fraction name, c :: rest =>
    if isUnitChar c then scanDuration total (.unit whole fraction (c :: name)) rest
    else do
      let total ← addUnits? total whole fraction (String.ofList name.reverse)
      if c.isDigit then scanDuration total (.whole [c]) rest
      else if Text.isBlank c then scanDuration total .start rest
      else none

/-- The span that a text denotes. At least one number must be in it. -/
def duration? (text : String) : Option Nanoseconds :=
  if text = "0" then some 0
  else if Text.isBlankText text then none
  else scanDuration 0 .start text.toList

/-- The units that spans are shown in, with the text for one and for several of them. -/
def shownUnits : List (Nanoseconds × String × String) :=
  [(31557600 * second, "year", "years"), (2630016 * second, "month", "months"),
    (86400 * second, "day", "days"), (3600 * second, "h", "h"), (60 * second, "m", "m"),
    (second, "s", "s"), (1000000, "ms", "ms"), (1000, "us", "us"), (1, "ns", "ns")]

/-- The parts of a span in the given units, the largest first. -/
def durationParts (span : Nanoseconds) : List (Nanoseconds × String × String) → List String
  | [] => []
  | (unit, one, several) :: rest =>
    let count := span / unit
    let others := durationParts (span % unit) rest
    if count = 0 then others
    else (toString count ++ (if count = 1 then one else several)) :: others

def durationText (span : Nanoseconds) : String :=
  if span = 0 then "0s" else String.intercalate " " (durationParts span shownUnits)

def elapsedText (span : Nanoseconds) : String :=
  durationText (span / 1000000 * 1000000)

end Reactor.CommandLine

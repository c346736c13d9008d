import Reactor.Decimal.Layout
import Reactor.Json.Basic
import Reactor.SortedMap

/-!
# Writing JSON

Two printers for documents: `compact` writes no space at all, and its texts are what fingerprints
are taken of; `pretty` writes one item or entry a line.
-/

namespace Reactor.Json

/-- Doubles in JSON: positional from `10 ^ -5` up to, not including, `10 ^ 16`, always with a
fraction or an exponent. There is no notation for infinities and for values that are not numbers,
and `null` is written for them. -/
def floatLayout : Decimal.Layout where
  isPositional exponent := -5 ≤ exponent && exponent < 16
  wholeSuffix := ".0"
  exponentWidth := 1
  notANumber := "null"
  infinity := "null"

def numberText : Number → String
  | .integer n => toString n
  | .float x =>
    if x.isInf then floatLayout.infinity else floatLayout.float Decimal.Binary.shortest x

/-- The text of a character inside a string. Quotes, backslashes and control characters are
escaped. -/
def escapeChar (c : Char) : List Char :=
  if c = '"' then ['\\', '"']
  else if c = '\\' then ['\\', '\\']
  else if c = '\x08' then ['\\', 'b']
  else if c = '\x0c' then ['\\', 'f']
  else if c = '\n' then ['\\', 'n']
  else if c = '\r' then ['\\', 'r']
  else if c = '\t' then ['\\', 't']
  else if c.toNat < 0x20 then
    ['\\', 'u', '0', '0', Nat.digitChar (c.toNat / 16), Nat.digitChar (c.toNat % 16)]
  else [c]

/-- The text of a string, quotes included. -/
def stringText (s : String) : String :=
  String.ofList ('"' :: (s.toList.flatMap escapeChar ++ ['"']))

mutual

def compact : Json → String
  | .null => "null"
  | .bool true => "true"
  | .bool false => "false"
  | .number n => numberText n
  | .string s => stringText s
  | .array items => "[" ++ String.intercalate "," (compactItems items) ++ "]"
  | .object entries => "\x7b" ++ String.intercalate "," (compactEntries entries) ++ "\x7d"

def compactItems : List Json → List String
  | [] => []
  | item :: rest => compact item :: compactItems rest

def compactEntries : List (String × Json) → List String
  | [] => []
  | (key, value) :: rest => (stringText key ++ ":" ++ compact value) :: compactEntries rest

end

def indentation (depth : Nat) : String :=
  String.ofList (List.replicate (2 * depth) ' ')

/-- The given lines between brackets, each on its own line one level below `depth`. -/
def bracketed (depth : Nat) (opening closing : String) (lines : List String) : String :=
  if lines.isEmpty then opening ++ closing
  else
    let margin := "\n" ++ indentation (depth + 1)
    opening ++ margin ++ String.intercalate ("," ++ margin) lines ++ "\n" ++ indentation depth ++
      closing

mutual

/-- The text of a document `depth` levels deep, with one item or entry a line. -/
def prettyAt (depth : Nat) : Json → String
  | .array items => bracketed depth "[" "]" (prettyItems (depth + 1) items)
  | .object entries => bracketed depth "\x7b" "\x7d" (prettyEntries (depth + 1) entries)
  | .null => "null"
  | .bool true => "true"
  | .bool false => "false"
  | .number n => numberText n
  | .string s => stringText s

def prettyItems (depth : Nat) : List Json → List String
  | [] => []
  | item :: rest => prettyAt depth item :: prettyItems depth rest

def prettyEntries (depth : Nat) : List (String × Json) → List String
  | [] => []
  | (key, value) :: rest =>
    (stringText key ++ ": " ++ prettyAt depth value) :: prettyEntries depth rest

end

/-- The text of a document with one item or entry a line. -/
def pretty (document : Json) : String :=
  prettyAt 0 document

mutual

/-- The document with the entries of every object in key order, the last entry of each key
kept. -/
def sortKeys : Json → Json
  | .array items => .array (sortItems items)
  | .object entries => .object (SortedMap.ofList (sortEntries entries)).entries
  | .null => .null
  | .bool value => .bool value
  | .number n => .number n
  | .string s => .string s

def sortItems : List Json → List Json
  | [] => []
  | item :: rest => sortKeys item :: sortItems rest

def sortEntries : List (String × Json) → List (String × Json)
  | [] => []
  | (key, value) :: rest => (key, sortKeys value) :: sortEntries rest

end

def strings (items : List String) : Json :=
  .array (items.map .string)

def stringMap (m : SortedMap String) : Json :=
  .object (m.map Json.string).entries

def entry? (key : String) (value : Option String) : List (String × Json) :=
  (value.map fun text ↦ (key, Json.string text)).toList

end Reactor.Json

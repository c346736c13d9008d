import Reactor.Text.Hex

/-!
# Faults in YAML texts

What can be wrong with a stream of characters, with the order of its tokens, and with the values of
a document. A fault is reported with the place at which it was noticed, and many faults also with
the larger part of the text in which they stand.
-/

namespace Reactor.Yaml

/-- A place in a stream. Lines and columns count from zero. -/
structure Mark where
  line : Nat
  column : Nat
  /-- The number of bytes before the place on its line. -/
  byte : Nat
  deriving DecidableEq, Repr, Inhabited

namespace Mark

def start : Mark :=
  ⟨0, 0, 0⟩

def isStart (mark : Mark) : Bool :=
  mark.line = 0 && mark.column = 0

def nextLine (mark : Mark) : Mark :=
  ⟨mark.line + 1, 0, 0⟩

/-- The place after a character of the same line. -/
def after (mark : Mark) (c : Char) : Mark :=
  ⟨mark.line, mark.column + 1, mark.byte + c.utf8Size⟩

def isAt (mark other : Mark) : Bool :=
  mark.line = other.line && mark.column = other.column

def text (mark : Mark) : String :=
  s!"line {mark.line + 1} column {mark.column + 1}"

end Mark

/-- What is wrong with the characters or the tokens of a stream. -/
inductive Problem where
  | colonMissing
  | sequenceNotAllowed
  | keyNotAllowed
  | valueNotAllowed
  | noToken
  | directiveName
  | directiveCharacter
  | unknownDirective
  | lineEnd
  | digitOrPoint
  | longVersion
  | versionNumber
  | whiteSpace
  | whiteSpaceOrBreak
  | exclamationMark
  | tagText
  | tagByte
  | firstByte
  | furtherByte
  | closingBracket
  | name
  | zeroIndentation
  | tabInIndentation
  | documentMark
  | endOfStream
  | unknownEscape
  | hexDigit
  | invalidCode
  | tabBeforeText
  | colonInFlow
  | repeatedVersion
  | otherVersion
  | repeatedHandle
  | unknownHandle
  | documentStart
  | nodeContent
  | dashMissing
  | keyMissing
  | sequenceCommaOrEnd
  | mappingCommaOrEnd
  deriving DecidableEq, Repr

def Problem.text : Problem → String
  | colonMissing => "could not find expected ':'"
  | sequenceNotAllowed => "block sequence entries are not allowed in this context"
  | keyNotAllowed => "mapping keys are not allowed in this context"
  | valueNotAllowed => "mapping values are not allowed in this context"
  | noToken => "found character that cannot start any token"
  | directiveName => "could not find expected directive name"
  | directiveCharacter => "found unexpected non-alphabetical character"
  | unknownDirective => "found unknown directive name"
  | lineEnd => "did not find expected comment or line break"
  | digitOrPoint => "did not find expected digit or '.' character"
  | longVersion => "found extremely long version number"
  | versionNumber => "did not find expected version number"
  | whiteSpace => "did not find expected whitespace"
  | whiteSpaceOrBreak => "did not find expected whitespace or line break"
  | exclamationMark => "did not find expected '!'"
  | tagText => "did not find expected tag URI"
  | tagByte => "did not find URI escaped octet"
  | firstByte => "found an incorrect leading UTF-8 octet"
  | furtherByte => "found an incorrect trailing UTF-8 octet"
  | closingBracket => "did not find the expected '>'"
  | name => "did not find expected alphabetic or numeric character"
  | zeroIndentation => "found an indentation indicator equal to 0"
  | tabInIndentation => "found a tab character where an indentation space is expected"
  | documentMark => "found unexpected document indicator"
  | endOfStream => "found unexpected end of stream"
  | unknownEscape => "found unknown escape character"
  | hexDigit => "did not find expected hexdecimal number"
  | invalidCode => "found invalid Unicode character escape code"
  | tabBeforeText => "found a tab character that violates indentation"
  | colonInFlow => "found unexpected ':'"
  | repeatedVersion => "found duplicate %YAML directive"
  | otherVersion => "found incompatible YAML document"
  | repeatedHandle => "found duplicate %TAG directive"
  | unknownHandle => "found undefined tag handle"
  | documentStart => "did not find expected <document start>"
  | nodeContent => "did not find expected node content"
  | dashMissing => "did not find expected '-' indicator"
  | keyMissing => "did not find expected key"
  | sequenceCommaOrEnd => "did not find expected ',' or ']'"
  | mappingCommaOrEnd => "did not find expected ',' or '\x7d'"

/-- The part of a text in which a problem stands. -/
inductive Context where
  | keyCandidate
  | nextToken
  | directive
  | versionDirective
  | tagDirective
  | tagDirectiveHandle
  | tagDirectiveText
  | tagDirectiveStart
  | tag
  | tagText
  | anchor
  | reference
  | blockScalar
  | quotedScalar
  | quotedText
  | plainScalar
  | node
  | blockNode
  | flowNode
  | blockSequence
  | blockMapping
  | flowSequence
  | flowMapping
  deriving DecidableEq, Repr

def Context.text : Context → String
  | keyCandidate => "while scanning a simple key"
  | nextToken => "while scanning for the next token"
  | directive => "while scanning a directive"
  | versionDirective => "while scanning a %YAML directive"
  | tagDirective => "while scanning a %TAG directive"
  | tagDirectiveHandle => "while parsing a tag directive"
  | tagDirectiveText => "while parsing a %TAG directive"
  | tagDirectiveStart => "while scanning a tag directive"
  | tag => "while scanning a tag"
  | tagText => "while parsing a tag"
  | anchor => "while scanning an anchor"
  | reference => "while scanning an alias"
  | blockScalar => "while scanning a block scalar"
  | quotedScalar => "while scanning a quoted scalar"
  | quotedText => "while parsing a quoted scalar"
  | plainScalar => "while scanning a plain scalar"
  | node => "while parsing a node"
  | blockNode => "while parsing a block node"
  | flowNode => "while parsing a flow node"
  | blockSequence => "while parsing a block collection"
  | blockMapping => "while parsing a block mapping"
  | flowSequence => "while parsing a flow sequence"
  | flowMapping => "while parsing a flow mapping"

/-- The types that a tag may give to a scalar. -/
inductive ScalarType where
  | boolean
  | integer
  | float
  | null
  deriving DecidableEq, Repr

def ScalarType.text : ScalarType → String
  | boolean => "a boolean"
  | integer => "an integer"
  | float => "a float"
  | null => "null"

/-- What is wrong with a value of a document. -/
inductive ValueProblem where
  /-- A tag of an application. -/
  | applicationTag
  | sequenceKey
  | mappingKey
  | numberOutOfRange
  /-- A scalar that is not spelled like its type. -/
  | spelling (text : String) (type : ScalarType)
  deriving DecidableEq, Repr

/-- A character as it is shown between double quotes. -/
def shownChar (c : Char) : String :=
  if c = '"' then "\\\""
  else if c = '\\' then "\\\\"
  else if c = '\n' then "\\n"
  else if c = '\t' then "\\t"
  else if c = '\r' then "\\r"
  else if c.toNat = 0 then "\\0"
  else if c.toNat < 0x20 ∨ (0x7F ≤ c.toNat ∧ c.toNat < 0xA0) then
    "\\u\x7b" ++ String.ofList (Nat.toDigits 16 c.toNat) ++ "\x7d"
  else c.toString

def shownText (text : String) : String :=
  "\"" ++ String.join (text.toList.map shownChar) ++ "\""

def ValueProblem.text : ValueProblem → String
  | applicationTag => "invalid type: enum, expected any valid JSON value"
  | sequenceKey => "invalid type: sequence, expected a string key"
  | mappingKey => "invalid type: map, expected a string key"
  | numberOutOfRange => "JSON number out of range"
  | spelling text type => "invalid value: string " ++ shownText text ++ ", expected " ++ type.text

/-- The way from the root of a document to a value. -/
inductive Route where
  | root
  | item (parent : Route) (index : Nat)
  | entry (parent : Route) (key : String)
  /-- The value under a key that is no scalar where it stands. -/
  | unnamed (parent : Route)
  /-- What an alias refers to. -/
  | alias_ (parent : Route)
  deriving DecidableEq, Repr

namespace Route

mutual

def text : Route → String
  | root => "."
  | item parent index => parent.stem ++ s!"[{index}]"
  | entry parent key => parent.stem ++ key
  | unnamed parent => parent.stem ++ "?"
  | alias_ parent => parent.text

/-- A route as text, where a further step follows it. -/
def stem : Route → String
  | root => ""
  | item parent index => parent.stem ++ s!"[{index}]" ++ "."
  | entry parent key => parent.stem ++ key ++ "."
  | unnamed parent => parent.stem ++ "?" ++ "."
  | alias_ parent => parent.text ++ "."

end

end Route

/-- Why a text denotes no document. -/
inductive Fault where
  /-- A character that is not allowed, and how many bytes stand before it. -/
  | character (offset : Nat)
  /-- A problem and its context. Without a mark the context is not located. -/
  | malformed (problem : Problem) (place : Mark) (context : Option (Context × Mark))
  | unknownAnchor (place : Mark)
  | tooDeep (place : Mark)
  | tooManyAliases
  | severalDocuments
  | value (route : Route) (problem : ValueProblem) (place : Mark)
  deriving DecidableEq, Repr

namespace Fault

/-- Where a fault is, unless it is at the start. -/
def placeText (mark : Mark) : String :=
  if mark.isStart then "" else " at " ++ mark.text

/-- The context of a problem. It is located if that adds anything. -/
def contextText (place : Mark) : Option (Context × Mark) → String
  | none => ""
  | some (context, mark) =>
    ", " ++ context.text ++ if mark.isAt place then "" else placeText mark

def message : Fault → String
  | character offset =>
    "control characters are not allowed" ++ if offset = 0 then "" else s!" at position {offset}"
  | malformed problem place context => problem.text ++ placeText place ++ contextText place context
  | unknownAnchor place => "unknown anchor" ++ placeText place
  | tooDeep place => "recursion limit exceeded" ++ placeText place
  | tooManyAliases => "repetition limit exceeded"
  | severalDocuments => "deserializing from YAML containing more than one document is not supported"
  | value route problem place =>
    let text := route.text
    (if text = "." then "" else text ++ ": ") ++ problem.text ++ placeText place

end Fault

end Reactor.Yaml

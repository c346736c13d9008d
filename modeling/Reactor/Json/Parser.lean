import Reactor.Json.Token

/-!
# Reading JSON

A document is built from the tokens of a text with a stack of the arrays and objects that are still
open. A reader of records may name the keys that it knows; of what stands under any other key, only
the form is checked.
-/

namespace Reactor.Json

/-- An array or object that is still open, and whether what stands in it next is passed over. Its
finished parts are in reverse order. -/
inductive Frame where
  | array (items : List Json) (isSkipped : Bool)
  | object (entries : List (String × Json)) (key : String) (isSkipped : Bool)

/-- Whether what stands in the innermost of the open frames is passed over. -/
def isSkipped : List Frame → Bool
  | [] => false
  | .array _ skipped :: _ => skipped
  | .object _ _ skipped :: _ => skipped

/-- The number of arrays and objects that may be open at a time. What is passed over may go
deeper. -/
def maxDepth : Nat :=
  127

def mayOpen (stack : List Frame) : Bool :=
  isSkipped stack || stack.length < maxDepth

/-- What a well-formed token denotes. Where values are passed over it need not denote anything, and
`dummy` stands for it. -/
def denoted {α : Type} (isSkipped : Bool) (dummy : α) (content : Except Stop α) : Except Stop α :=
  if isSkipped then .ok dummy else content

/-- The keys of objects under which values are read, given the number of frames around the object.
Values under all other keys are passed over. -/
abbrev KnownKeys := Nat → String → Bool

namespace KnownKeys

def all : KnownKeys :=
  fun _ _ ↦ true

/-- The objects inside of `depth` frames are records with the given keys. -/
def ofRecord (depth : Nat) (keys : List String) : KnownKeys :=
  fun frames key ↦ frames ≠ depth || keys.contains key

end KnownKeys

/-- The frame of an object that is about to hold a value under a key. -/
def entryFrame (known : KnownKeys) (stack : List Frame) (entries : List (String × Json))
    (key : String) : Frame :=
  .object entries key (isSkipped stack || !known stack.length key)

def Token.stop (token : Token) (reason : Reason) : Stop :=
  ⟨reason, token.start, 1⟩

def Token.valueStop (token : Token) : Stop :=
  match token.lexeme with
  | .broken stop _ => stop
  | _ => token.stop .expectedValue

def Token.keyStop (token : Token) : Stop :=
  match token.lexeme with
  | .broken stop true => stop
  | _ => token.stop .keyNotString

def endStop (reason : Reason) : Stop :=
  ⟨reason, [], 0⟩

mutual

/-- Reads a value inside the open frames, and then what follows it. -/
def build (known : KnownKeys) (stack : List Frame) : List Token → Except Stop Json
  | [] => .error (endStop .eofValue)
  | token :: rest =>
    match token.lexeme with
    | .scalar value => do
      let value ← denoted (isSkipped stack) .null value
      close known stack value rest
    | .string text => do
      let text ← denoted (isSkipped stack) "" text
      close known stack (.string text) rest
    | .openArray => if mayOpen stack then buildItem known stack rest else .error (token.stop .tooDeep)
    | .openObject =>
      if mayOpen stack then buildEntry known stack rest else .error (token.stop .tooDeep)
    | _ => .error token.valueStop

/-- Reads the first item of an array that was just opened, or its end. -/
def buildItem (known : KnownKeys) (stack : List Frame) : List Token → Except Stop Json
  | [] => .error (endStop .eofList)
  | token :: rest =>
    let inner := Frame.array [] (isSkipped stack) :: stack
    match token.lexeme with
    | .closeArray => close known stack (.array []) rest
    | .scalar value => do
      let value ← denoted (isSkipped stack) .null value
      close known inner value rest
    | .string text => do
      let text ← denoted (isSkipped stack) "" text
      close known inner (.string text) rest
    | .openArray => if mayOpen inner then buildItem known inner rest else .error (token.stop .tooDeep)
    | .openObject =>
      if mayOpen inner then buildEntry known inner rest else .error (token.stop .tooDeep)
    | _ => .error token.valueStop

/-- Reads the first key of an object that was just opened, or its end. -/
def buildEntry (known : KnownKeys) (stack : List Frame) : List Token → Except Stop Json
  | [] => .error (endStop .eofObject)
  | token :: rest =>
    match token.lexeme with
    | .closeObject => close known stack (.object []) rest
    | .string key => do
      let key ← denoted (isSkipped stack) "" key
      buildValue known stack [] key rest
    | _ => .error token.keyStop

/-- Reads the colon after a key, and the value under that key. -/
def buildValue (known : KnownKeys) (stack : List Frame) (entries : List (String × Json))
    (key : String) : List Token → Except Stop Json
  | [] => .error (endStop .eofObject)
  | token :: rest =>
    match token.lexeme with
    | .colon => build known (entryFrame known stack entries key :: stack) rest
    | _ => .error (token.stop .expectedColon)

def buildNextItem (known : KnownKeys) (stack : List Frame) : List Token → Except Stop Json
  | [] => .error (endStop .eofValue)
  | token :: rest =>
    match token.lexeme with
    | .closeArray => .error (token.stop .trailingComma)
    | .scalar value => do
      let value ← denoted (isSkipped stack) .null value
      close known stack value rest
    | .string text => do
      let text ← denoted (isSkipped stack) "" text
      close known stack (.string text) rest
    | .openArray => if mayOpen stack then buildItem known stack rest else .error (token.stop .tooDeep)
    | .openObject =>
      if mayOpen stack then buildEntry known stack rest else .error (token.stop .tooDeep)
    | _ => .error token.valueStop

def buildNextEntry (known : KnownKeys) (stack : List Frame) (entries : List (String × Json)) :
    List Token → Except Stop Json
  | [] => .error (endStop .eofValue)
  | token :: rest =>
    match token.lexeme with
    | .closeObject => .error (token.stop .trailingComma)
    | .string key => do
      let key ← denoted (isSkipped stack) "" key
      buildValue known stack entries key rest
    | _ => .error token.keyStop

/-- Puts a finished value into the innermost frame and goes on after it. -/
def close (known : KnownKeys) (stack : List Frame) (value : Json) :
    List Token → Except Stop Json
  | [] =>
    match stack with
    | [] => .ok value
    | .array _ _ :: _ => .error (endStop .eofList)
    | .object _ _ _ :: _ => .error (endStop .eofObject)
  | token :: rest =>
    match stack, token.lexeme with
    | [], _ => .error (token.stop .trailingCharacters)
    | .array items skipped :: stack, .comma =>
      buildNextItem known (.array (value :: items) skipped :: stack) rest
    | .array items _ :: stack, .closeArray =>
      close known stack (.array (value :: items).reverse) rest
    | .array _ _ :: _, _ => .error (token.stop .expectedListCommaOrEnd)
    | .object entries key _ :: stack, .comma =>
      buildNextEntry known stack ((key, value) :: entries) rest
    | .object entries key _ :: stack, .closeObject =>
      close known stack (.object ((key, value) :: entries).reverse) rest
    | .object _ _ _ :: _, _ => .error (token.stop .expectedObjectCommaOrEnd)

end

/-- The document that a text denotes, as far as it stands under known keys. -/
def parseKnown (known : KnownKeys) (text : String) : Except Fault Json :=
  (build known [] (scan 0 text.toList)).mapError fun stop ↦ stop.fault text.toList

def parse (text : String) : Except Fault Json :=
  parseKnown .all text

/-- The document that a text denotes, if it denotes one. -/
def parse? (text : String) : Option Json :=
  (parse text).toOption

end Reactor.Json

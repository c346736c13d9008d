import Reactor.Text.Hex
import Reactor.Text.Utf8
import Reactor.Yaml.Character

/-!
# Tokens of a YAML stream

The tokens that the syntax of nodes is made of, and the reading of those that name something:
anchors, aliases, tags and directives.
-/

namespace Reactor.Yaml

/-- A tag as written. The tag itself is the text that the handle stands for, followed by the
suffix; without a handle it is the suffix alone. -/
structure TagName where
  handle : Option String
  suffix : String
  deriving DecidableEq

inductive Token where
  | version (major minor : Nat)
  /-- A handle of tags and the text that it stands for. -/
  | tagHandle (handle meaning : String)
  | documentStart
  | documentEnd
  | blockSequenceStart
  | blockMappingStart
  | blockEnd
  | flowSequenceStart
  | flowSequenceEnd
  | flowMappingStart
  | flowMappingEnd
  | blockEntry
  | flowEntry
  | key
  | value
  | reference (name : String)
  | anchor (name : String)
  | tag (name : TagName)
  | scalar (text : String) (plain : Bool)
  | streamEnd
  /-- What could not be read as a token. Nothing follows it. -/
  | broken (fault : Fault)
  deriving DecidableEq

structure Lexeme where
  token : Token
  mark : Mark
  deriving DecidableEq

namespace Token

/-! ## Anchors and aliases -/

/-- Whether a name of an anchor may end before the given characters. -/
def atNameEnd (cs : List Char) : Bool :=
  atWordEnd cs || cs.head?.any "?:,]\x7d%@\x60".toList.contains

/-- The name of the anchor or alias at a place, which is that of its indicator. -/
def anchorName (context : Context) (cursor : Cursor) : Except Fault (String × Cursor) :=
  let (name, after) := (cursor.advance 1).span isNameChar
  if name ≠ [] ∧ atNameEnd after.rest then .ok (String.ofList name, after)
  else .error (after.fault .name context cursor.mark)

/-! ## Tags -/

/-- The characters of tags besides those of names, inside and outside of angle brackets. -/
def isTagChar (bracketed : Bool) (c : Char) : Bool :=
  isNameChar c || ";/?:@&=+$.%!~*'()".toList.contains c || (bracketed && ",[]".toList.contains c)

/-- How many bytes a character takes whose first byte is given. -/
def byteCount? (first : Nat) : Option Nat :=
  if first < 0x80 then some 1
  else if 0xC0 ≤ first ∧ first < 0xE0 then some 2
  else if 0xE0 ≤ first ∧ first < 0xF0 then some 3
  else if 0xF0 ≤ first ∧ first < 0xF8 then some 4
  else none

/-- The bytes that a tag denotes, in which a percent sign and two digits are one byte. `missing`
bytes of the last character must follow as such escapes. The characters that belong to a tag are
those that satisfy `p`. -/
def tagBytes (p : Char → Bool) (context : Context) (start : Mark) (missing : Nat) (mark : Mark) :
    List Char → Except Fault (List UInt8 × Cursor)
  | [] =>
    if missing = 0 then .ok ([], ⟨[], mark⟩)
    else .error (Cursor.fault ⟨[], mark⟩ .tagByte context start)
  | '%' :: high :: low :: rest =>
    let fault (problem : Problem) : Fault :=
      Cursor.fault ⟨'%' :: high :: low :: rest, mark⟩ problem context start
    match Text.hexValue? high, Text.hexValue? low with
    | some highDigit, some lowDigit =>
      let byte := 16 * highDigit + lowDigit
      let count : Except Fault Nat :=
        if missing = 0 then
          match byteCount? byte with
          | some count => .ok (count - 1)
          | none => .error (fault .firstByte)
        else if 0x80 ≤ byte ∧ byte < 0xC0 then .ok (missing - 1)
        else .error (fault .furtherByte)
      do
        let missing ← count
        let (bytes, cursor) ← tagBytes p context start missing
          (((mark.after '%').after high).after low) rest
        .ok (UInt8.ofNat byte :: bytes, cursor)
    | _, _ => .error (fault .tagByte)
  | c :: rest =>
    if missing ≠ 0 ∨ c = '%' then .error (Cursor.fault ⟨c :: rest, mark⟩ .tagByte context start)
    else if p c then do
      let (bytes, cursor) ← tagBytes p context start 0 (mark.after c) rest
      .ok (Text.Utf8.encode c.toString ++ bytes, cursor)
    else .ok ([], ⟨c :: rest, mark⟩)

/-- The text that is written like a tag from a place on. Bytes that are no text count as none. -/
def tagText (bracketed : Bool) (context : Context) (start : Mark) (mayBeEmpty : Bool)
    (cursor : Cursor) : Except Fault (String × Cursor) := do
  let (bytes, after) ← tagBytes (isTagChar bracketed) context start 0 cursor.mark cursor.rest
  if bytes.isEmpty ∧ ¬mayBeEmpty then .error (after.fault .tagText context start)
  else .ok ((Text.Utf8.decode bytes).toOption.getD "", after)

/-- The handle at the start of a tag: an exclamation mark, or a name between two of them. -/
def handle (cursor : Cursor) : List Char × Cursor :=
  let (name, after) := (cursor.advance 1).span isNameChar
  if after.rest.head? = some '!' then ('!' :: name ++ ['!'], after.advance 1)
  else ('!' :: name, after)

/-- The name of the tag at a place, which is that of its exclamation mark. -/
def tagName (cursor : Cursor) : Except Fault (TagName × Cursor) :=
  if (cursor.rest.drop 1).head? = some '<' then do
    let (text, after) ← tagText true .tagText cursor.mark false (cursor.advance 2)
    if after.rest.head? = some '>' then .ok (⟨none, text⟩, after.advance 1)
    else .error (after.fault .closingBracket .tag cursor.mark)
  else
    let (first, after) := handle cursor
    if 1 < first.length ∧ first.getLast? = some '!' then do
      let (text, after) ← tagText false .tagText cursor.mark false after
      .ok (⟨some (String.ofList first), text⟩, after)
    else do
      let (text, after) ← tagText false .tagText cursor.mark true after
      let suffix := String.ofList (first.drop 1) ++ text
      .ok (if suffix.isEmpty then ⟨none, "!"⟩ else ⟨some "!", suffix⟩, after)

def readTag (inFlow : Bool) (cursor : Cursor) : Except Fault (TagName × Cursor) := do
  let (name, after) ← tagName cursor
  if atWordEnd after.rest ∨ (inFlow ∧ after.rest.head? = some ',') then .ok (name, after)
  else .error (after.fault .whiteSpaceOrBreak .tag cursor.mark)

/-! ## Directives -/

/-- The number of at most nine digits at a place, in a directive that starts at `start`. -/
def versionNumber (start : Mark) (cursor : Cursor) : Except Fault (Nat × Cursor) :=
  let (digits, after) := cursor.span Char.isDigit
  if digits.isEmpty then .error (after.fault .versionNumber .versionDirective start)
  else if 9 < digits.length then
    .error ((cursor.advance 9).fault .longVersion .versionDirective start)
  else .ok (digits.foldl (fun n c ↦ 10 * n + (c.toNat - '0'.toNat)) 0, after)

def readVersion (start : Mark) (cursor : Cursor) : Except Fault (Token × Cursor) := do
  let (major, cursor) ← versionNumber start (cursor.skip isBlank)
  if cursor.rest.head? ≠ some '.' then .error (cursor.fault .digitOrPoint .versionDirective start)
  else do
    let (minor, cursor) ← versionNumber start (cursor.advance 1)
    .ok (.version major minor, cursor)

/-- The handle that a directive explains, and its meaning. -/
def readHandle (start : Mark) (cursor : Cursor) : Except Fault (Token × Cursor) := do
  let cursor := cursor.skip isBlank
  if cursor.rest.head? ≠ some '!' then
    .error (cursor.fault .exclamationMark .tagDirectiveStart start)
  else do
    let (handle, cursor) := handle cursor
    if handle.getLast? ≠ some '!' then
      .error (cursor.fault .exclamationMark .tagDirectiveHandle start)
    else if ¬cursor.rest.head?.any isBlank then
      .error (cursor.fault .whiteSpace .tagDirective start)
    else do
      let (meaning, cursor) ← tagText true .tagDirectiveText start false (cursor.skip isBlank)
      if atWordEnd cursor.rest then .ok (.tagHandle (String.ofList handle) meaning, cursor)
      else .error (cursor.fault .whiteSpaceOrBreak .tagDirective start)

/-- The directive at a place, which is that of its percent sign, and the place after its line. -/
def directive (cursor : Cursor) : Except Fault (Token × Cursor) := do
  let (name, after) := (cursor.advance 1).span isNameChar
  if name.isEmpty then .error (after.fault .directiveName .directive cursor.mark)
  else if ¬atWordEnd after.rest then
    .error (after.fault .directiveCharacter .directive cursor.mark)
  else do
    let (token, after) ←
      if name = "YAML".toList then readVersion cursor.mark after
      else if name = "TAG".toList then readHandle cursor.mark after
      else .error (after.fault .unknownDirective .directive cursor.mark)
    let after ← after.finishLine .directive cursor.mark
    .ok (token, after)

end Token

end Reactor.Yaml

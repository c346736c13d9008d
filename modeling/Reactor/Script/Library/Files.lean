import Reactor.Script.Library.Argument

/-!
# Functions on files

A script opens files by their paths and reads them. What goes wrong with a file is not a failure of
the script: it gets nil, a message and a number.
-/

namespace Reactor.Script.Library

open Memory

/-- The results that say what went wrong. -/
def complaint (message : ByteArray) (number : Nat) : List Item :=
  [.nil, .string message, .ofInt number]

/-- Whether a mode of opening a file is one: a letter, a plus sign if need be, and a mark for binary
files if need be. -/
def isMode (mode : Bytes) : Bool :=
  match mode with
  | [] => false
  | letter :: rest =>
    let rest := if rest.head? = some 43 then rest.drop 1 else rest
    (letter = 114 || letter = 119 || letter = 97) && rest.all (· = 98)

def ioOpen (arguments : List Item) : Run (List Item) := do
  let name ← bytesArgument arguments 0
  let mode := (← bytesArgumentOr arguments 1 "r".toUTF8).toList
  if ¬isMode mode then failure
  else
    let fs := (← get).fileSystem
    let fail (message : String) (number : Nat) : List Item :=
      complaint (name ++ (": " ++ message).toUTF8) number
    let opened : Except FileSystem.PathFault Node := do
      let path ← (Text.Utf8.decode (name.toList.takeWhile (· ≠ 0))).mapError fun _ ↦ .missing
      let place ← fs.resolve path
      match fs.node? place with
      | some node => .ok node
      | none => .ok .directory
    match opened with
    | .error fault => pure (fail fault.text fault.number)
    | .ok (.file content) =>
      if mode.head? = some 114 then pure [← newFile (.reading content)]
      else pure [← newFile (.unreadable "Bad file descriptor" 9)]
    | .ok _ =>
      if mode.head? = some 114 ∧ ¬mode.contains 43 then
        pure [← newFile (.unreadable "Is a directory" 21)]
      else pure (fail "Is a directory" 21)

/-- What a reader takes from a file: its value, nil at the end of the file, and the bytes after
it. -/
def readFormat? (format : Item) (rest : Bytes) : Option (Item × Bytes) :=
  let line := rest.takeWhile (· ≠ 10)
  let after := rest.drop (line.length + 1)
  match format with
  | .number n => do
    let count := (← n.toInt?).toInt.toNat
    some (if rest.isEmpty then .nil else .ofBytes (rest.take count), rest.drop count)
  | .string bytes =>
    let letter? := if bytes[0]? = some 42 then bytes[1]? else bytes[0]?
    if letter? = some 108 then some (if rest.isEmpty then .nil else .ofBytes line, after)
    else if letter? = some 76 then
      some (if rest.isEmpty then .nil else .ofBytes (rest.take (line.length + 1)), after)
    else if letter? = some 97 then some (.ofBytes rest, [])
    else none
  | _ => none

/-- Reads from a file, one value for each format, up to the first that is nil. -/
def readFormats (id : Nat) : List Item → Run (List Item)
  | [] => pure []
  | format :: formats => do
    match ← file id with
    | .closed => failure
    | .unreadable message number => pure (complaint message.toUTF8 number)
    | .reading rest =>
      let (item, rest) ← liftM (readFormat? format rest)
      putFile id (.reading rest)
      if item.isNil then pure [.nil] else do pure (item :: (← readFormats id formats))

def onFiles (f : Builtin) (arguments : List Item) : Run (List Item) := do
  match f, arguments with
  | .ioOpen, arguments => ioOpen arguments
  | .fileRead, .file id :: formats =>
    readFormats id (if formats.isEmpty then [.ofText "l"] else formats)
  | .fileClose, .file id :: _ =>
    match ← file id with
    | .closed => failure
    | _ =>
      putFile id .closed
      pure [.bool true]
  | .fileText, .file id :: _ =>
    match ← file id with
    | .closed => pure [.ofText "file (closed)"]
    | _ => pure [.ofText "file (0x0)"]
  | _, _ => failure

end Reactor.Script.Library

import Reactor.Text.Blank

/-!
# Placeholders

A text may refer to properties: `${name}` stands for the value of `name`. A dollar sign that is not
followed by a brace means itself, and `$${` is a literal `${`. A text is first read into segments,
and the segments are then expanded, either strictly, where every name must be defined, or leniently,
where an undefined reference is left in place. Values are inserted as they are and never read again.
-/

namespace Reactor.Placeholder

/-- A part of a text with placeholders. -/
inductive Segment where
  | literal (text : String)
  /-- A reference to the property of that name. -/
  | property (name : String)
  deriving DecidableEq, Repr, Inhabited

/-- Why a text cannot be expanded. Positions count bytes from the start of the text and point at
the dollar sign of the placeholder. -/
inductive Failure where
  /-- No closing brace follows. -/
  | unclosed (position : Nat)
  /-- Nothing but white space stands between the braces. -/
  | empty (position : Nat)
  /-- The property is not defined. -/
  | unresolved (name : String)
  deriving DecidableEq, Repr

def Failure.message : Failure → String
  | unclosed position => s!"unclosed placeholder at position {position}"
  | empty position => s!"empty placeholder at position {position}"
  | unresolved name => s!"property '{name}' is not defined"

/-- Where a scan of a text stands. Characters read so far are in reverse order. -/
inductive Scan where
  /-- Inside literal text. -/
  | literal (read : List Char)
  /-- Inside the placeholder whose dollar sign is at `start`. -/
  | name (start : Nat) (read : List Char)

/-- The segment of literal text just read, if there is any. -/
def pending (read : List Char) : List Segment :=
  if read.isEmpty then [] else [.literal (String.ofList read.reverse)]

/-- The segments of the characters from byte `position` on. -/
def scan (position : Nat) : Scan → List Char → Except Failure (List Segment)
  | .literal read, [] => .ok (pending read)
  | .literal read, '$' :: '$' :: '{' :: rest =>
    scan (position + 3) (.literal ('{' :: '$' :: read)) rest
  | .literal read, '$' :: '$' :: rest => scan (position + 2) (.literal ('$' :: '$' :: read)) rest
  | .literal read, '$' :: '{' :: rest =>
    (pending read ++ ·) <$> scan (position + 2) (.name position []) rest
  | .literal read, c :: rest => scan (position + c.utf8Size) (.literal (c :: read)) rest
  | .name start _, [] => .error (.unclosed start)
  | .name start read, '}' :: rest =>
    let name := Text.trimChars read.reverse
    if name.isEmpty then .error (.empty start)
    else (.property (String.ofList name) :: ·) <$> scan (position + 1) (.literal []) rest
  | .name start read, c :: rest => scan (position + c.utf8Size) (.name start (c :: read)) rest

def parse (text : String) : Except Failure (List Segment) :=
  scan 0 (.literal []) text.toList

def reference (name : String) : String :=
  "$\x7b" ++ name ++ "\x7d"

/-- The segments with every reference replaced by the value of its property. -/
def expand (lookup : String → Option String) : List Segment → Except Failure String
  | [] => .ok ""
  | .literal text :: rest => (text ++ ·) <$> expand lookup rest
  | .property name :: rest =>
    match lookup name with
    | some value => (value ++ ·) <$> expand lookup rest
    | none => .error (.unresolved name)

/-- The segments with every reference to a defined property replaced by its value. -/
def expandLenient (lookup : String → Option String) : List Segment → String
  | [] => ""
  | .literal text :: rest => text ++ expandLenient lookup rest
  | .property name :: rest => (lookup name).getD (reference name) ++ expandLenient lookup rest

def substitute (lookup : String → Option String) (text : String) : Except Failure String :=
  parse text >>= expand lookup

/-- The text with its placeholders replaced where the property is defined. -/
def substituteLenient (lookup : String → Option String) (text : String) : Except Failure String :=
  expandLenient lookup <$> parse text

end Reactor.Placeholder

import Reactor.Yaml.Token

/-!
# Nodes of a YAML document

The tree that a document's tokens describe. What a scalar means is not decided here, and an alias
still refers to an anchor. Where the tokens cease to describe a tree, the fault takes the place of a
node and ends the tree, so that whoever reads the tree from its start meets whatever comes first.
Every function that reads a part of the tokens returns the tokens after it with a proof that there
are fewer, so reading ends; it returns none if the part ends in a fault.
-/

namespace Reactor.Yaml

/-- Where a node starts, and what may precede it. -/
structure Properties where
  mark : Mark
  anchor : Option String
  tag : Option String
  deriving DecidableEq

/-- A node, in which references to other nodes are of type `ρ`. -/
inductive Node (ρ : Type) where
  | reference (mark : Mark) (target : ρ)
  | scalar (properties : Properties) (text : String) (plain : Bool)
  | sequence (properties : Properties) (items : List (Node ρ))
  | mapping (properties : Properties) (entries : List (Node ρ × Node ρ))
  | broken (fault : Fault)
  deriving Inhabited

/-- The next token, which is the end of the stream if there is none. -/
def Lexeme.first (ts : List Lexeme) : Lexeme :=
  ts.headD ⟨.streamEnd, .start⟩

/-- What is wrong if a token is not the one expected. A token that is broken has a fault of its
own. -/
def Lexeme.fault (lexeme : Lexeme) (problem : Problem) (context : Option (Context × Mark)) : Fault :=
  match lexeme.token with
  | .broken fault => fault
  | _ => .malformed problem lexeme.mark context

namespace Node

/-- The node without any text that stands where one was left out. -/
def empty : Node String :=
  scalar ⟨.start, none, none⟩ "" true

abbrev Handles := List (String × String)

def standardHandles : Handles :=
  [("!", "!"), ("!!", "tag:yaml.org,2002:")]

def tagText? (handles : Handles) (name : TagName) : Option String :=
  match name.handle with
  | none => some name.suffix
  | some handle => (handles.lookup handle).map (· ++ name.suffix)

abbrev Fewer (ts : List Lexeme) :=
  { rest : List Lexeme // rest.length < ts.length }

abbrev NoMore (ts : List Lexeme) :=
  { rest : List Lexeme // rest.length ≤ ts.length }

/-- The tag as text at the mark of its token, in a node that starts at `start`. A fault in the
tokens after the properties comes first. -/
def tagAt (handles : Handles) (start mark : Mark) (name : TagName) (rest : List Lexeme) :
    Except Fault String :=
  match (Lexeme.first rest).token, tagText? handles name with
  | .broken fault, _ => .error fault
  | _, some tag => .ok tag
  | _, none => .error (.malformed .unknownHandle mark (some (.node, start)))

/-- The properties before a node, an anchor and a tag in either order. -/
def properties (handles : Handles) (ts : List Lexeme) : Except Fault (Properties × NoMore ts) :=
  match ts with
  | ⟨.anchor anchor, start⟩ :: ⟨.tag name, mark⟩ :: rest =>
    (tagAt handles start mark name rest).map fun tag ↦
      (⟨start, some anchor, some tag⟩, ⟨rest, by simp; omega⟩)
  | ⟨.tag name, start⟩ :: ⟨.anchor anchor, _⟩ :: rest =>
    (tagAt handles start start name rest).map fun tag ↦
      (⟨start, some anchor, some tag⟩, ⟨rest, by simp; omega⟩)
  | ⟨.anchor anchor, start⟩ :: rest => .ok (⟨start, some anchor, none⟩, ⟨rest, by simp⟩)
  | ⟨.tag name, start⟩ :: rest =>
    (tagAt handles start start name rest).map fun tag ↦
      (⟨start, none, some tag⟩, ⟨rest, by simp⟩)
  | ts => .ok (⟨(Lexeme.first ts).mark, none, none⟩, ⟨ts, Nat.le_refl _⟩)

/-- How a node is read: whether it may be a block collection, and whether the dashes of a sequence
may stand in the column of the mapping that it is a value of. -/
inductive Style where
  | flow
  | block
  | flush
  deriving DecidableEq

def Style.context : Style → Context
  | flow => .flowNode
  | _ => .blockNode

/-- Whether an item of a block sequence has been left out before a token. -/
def isBlockStop : Token → Bool
  | .blockEntry | .blockEnd => true
  | _ => false

/-- Whether a key or value of a block mapping has been left out before a token. -/
def isMappingStop : Token → Bool
  | .key | .value | .blockEnd => true
  | _ => false

/-- Whether an item of a sequence that is not indented has been left out before a token. -/
def isFlushStop : Token → Bool
  | .blockEntry | .key | .value | .blockEnd => true
  | _ => false

/-- Whether a value has been left out before a token of a flow sequence. -/
def isItemStop : Token → Bool
  | .flowEntry | .flowSequenceEnd => true
  | _ => false

/-- Whether a value has been left out before a token of a flow mapping. -/
def isEntryStop : Token → Bool
  | .flowEntry | .flowMappingEnd => true
  | _ => false

mutual

/-- The node at the start of the tokens. Properties alone make a node without any text. -/
def read (handles : Handles) (style : Style) (ts : List Lexeme) :
    Node String × Option (Fewer ts) :=
  match ts with
  | ⟨.reference name, mark⟩ :: rest => (.reference mark name, some ⟨rest, by simp⟩)
  | ts =>
    match properties handles ts with
    | .error fault => (.broken fault, none)
    | .ok (properties, ⟨after, hafter⟩) =>
      match content handles style properties after with
      | some (node, rest) => (node, rest.map fun ⟨rest, h⟩ ↦ ⟨rest, by omega⟩)
      | none =>
        let first := Lexeme.first after
        if h : after.length < ts.length then
          match first.token with
          | .broken fault => (.broken fault, none)
          | _ => (.scalar properties "" true, some ⟨after, h⟩)
        else
          (.broken (first.fault .nodeContent (some (style.context, properties.mark))), none)
termination_by (ts.length, 2)
decreasing_by
  rcases Nat.lt_or_eq_of_le hafter with h | h
  · exact Prod.Lex.left _ _ h
  · rw [h]
    exact Prod.Lex.right _ (by decide)

/-- The node with the given properties whose content is at the start of the tokens, if any is. -/
def content (handles : Handles) (style : Style) (properties : Properties) (ts : List Lexeme) :
    Option (Node String × Option (Fewer ts)) :=
  match ts with
  | ⟨.scalar text plain, _⟩ :: rest =>
    some (.scalar properties text plain, some ⟨rest, by simp⟩)
  | ⟨.flowSequenceStart, mark⟩ :: rest =>
    let (items, rest) := flowItems handles mark rest
    some (.sequence properties items, rest.map fun ⟨rest, h⟩ ↦ ⟨rest, by grind⟩)
  | ⟨.flowMappingStart, mark⟩ :: rest =>
    let (entries, rest) := flowEntries handles mark rest
    some (.mapping properties entries, rest.map fun ⟨rest, h⟩ ↦ ⟨rest, by grind⟩)
  | ⟨.blockSequenceStart, mark⟩ :: rest =>
    if style = .flow then none
    else
      let (items, rest) := blockItems handles mark rest
      some (.sequence properties items, rest.map fun ⟨rest, h⟩ ↦ ⟨rest, by grind⟩)
  | ⟨.blockMappingStart, mark⟩ :: rest =>
    if style = .flow then none
    else
      let (entries, rest) := blockEntries handles mark rest
      some (.mapping properties entries, rest.map fun ⟨rest, h⟩ ↦ ⟨rest, by grind⟩)
  | ⟨.blockEntry, _⟩ :: rest =>
    if style = .flush then
      let (items, rest) := flushItems handles rest
      some (.sequence properties items, rest.map fun ⟨rest, h⟩ ↦ ⟨rest, by grind⟩)
    else none
  | _ => none
termination_by (ts.length, 1)

/-- The node at the start of the tokens, or the empty node before a token at which a node may be
left out. -/
def readOr (handles : Handles) (style : Style) (stop : Token → Bool) (ts : List Lexeme) :
    Node String × Option (NoMore ts) :=
  if stop (Lexeme.first ts).token then (empty, some ⟨ts, Nat.le_refl _⟩)
  else
    let (node, rest) := read handles style ts
    (node, rest.map fun ⟨rest, h⟩ ↦ ⟨rest, Nat.le_of_lt h⟩)
termination_by (ts.length, 3)

/-- The value of an entry and what follows it, the empty node if there is no colon. -/
def value (handles : Handles) (style : Style) (stop : Token → Bool) (ts : List Lexeme) :
    Node String × Option (NoMore ts) :=
  match ts with
  | ⟨.value, _⟩ :: rest =>
    let (node, rest) := readOr handles style stop rest
    (node, rest.map fun ⟨rest, h⟩ ↦ ⟨rest, by grind⟩)
  | ts => (empty, some ⟨ts, Nat.le_refl _⟩)
termination_by (ts.length, 4)

def blockItems (handles : Handles) (start : Mark) (ts : List Lexeme) :
    List (Node String) × Option (Fewer ts) :=
  match ts with
  | ⟨.blockEnd, _⟩ :: rest => ([], some ⟨rest, by simp⟩)
  | ⟨.blockEntry, _⟩ :: rest =>
    match readOr handles .block isBlockStop rest with
    | (item, none) => ([item], none)
    | (item, some ⟨rest, h⟩) =>
      let (items, rest) := blockItems handles start rest
      (item :: items, rest.map fun ⟨rest, h⟩ ↦ ⟨rest, by grind⟩)
  | ts =>
    ([.broken ((Lexeme.first ts).fault .dashMissing (some (.blockSequence, start)))], none)
termination_by (ts.length, 0)

/-- The items of a sequence that is not indented, after its first dash. -/
def flushItems (handles : Handles) (ts : List Lexeme) :
    List (Node String) × Option (NoMore ts) :=
  match readOr handles .block isFlushStop ts with
  | (item, none) => ([item], none)
  | (item, some ⟨rest, hitem⟩) =>
    match hm : rest with
    | ⟨.blockEntry, _⟩ :: rest =>
      let (items, rest) := flushItems handles rest
      (item :: items, rest.map fun ⟨rest, h⟩ ↦ ⟨rest, by grind⟩)
    | rest => ([item], some ⟨rest, by grind⟩)
termination_by (ts.length, 4)

def blockEntries (handles : Handles) (start : Mark) (ts : List Lexeme) :
    List (Node String × Node String) × Option (Fewer ts) :=
  match ts with
  | ⟨.blockEnd, _⟩ :: rest => ([], some ⟨rest, by simp⟩)
  | ⟨.key, _⟩ :: rest =>
    match readOr handles .flush isMappingStop rest with
    | (key, none) => ([(key, empty)], none)
    | (key, some ⟨rest, h⟩) =>
      match value handles .flush isMappingStop rest with
      | (value, none) => ([(key, value)], none)
      | (value, some ⟨rest, h⟩) =>
        let (entries, rest) := blockEntries handles start rest
        ((key, value) :: entries, rest.map fun ⟨rest, h⟩ ↦ ⟨rest, by grind⟩)
  | ts =>
    let fault := (Lexeme.first ts).fault .keyMissing (some (.blockMapping, start))
    ([(.broken fault, empty)], none)
termination_by (ts.length, 0)

/-- The items of a flow sequence up to its end. An item may be a mapping of a single entry. If the
key of that entry is left out, so is its value, together with the token that follows. -/
def flowItems (handles : Handles) (start : Mark) (ts : List Lexeme) :
    List (Node String) × Option (Fewer ts) :=
  match ts with
  | ⟨.flowSequenceEnd, _⟩ :: rest => ([], some ⟨rest, by simp⟩)
  | ⟨.key, mark⟩ :: rest =>
    let pair (key value : Node String) : Node String := .mapping ⟨mark, none, none⟩ [(key, value)]
    match keyOfPair handles rest with
    | (key, none) => ([pair key empty], none)
    | (key, some ⟨rest, h⟩) =>
      match value handles .flow isItemStop rest with
      | (value, none) => ([pair key value], none)
      | (value, some ⟨rest, h⟩) =>
        let (items, rest) := moreFlowItems handles start rest
        (pair key value :: items, rest.map fun ⟨rest, h⟩ ↦ ⟨rest, by grind⟩)
  | ts =>
    match read handles .flow ts with
    | (item, none) => ([item], none)
    | (item, some ⟨rest, h⟩) =>
      let (items, rest) := moreFlowItems handles start rest
      (item :: items, rest.map fun ⟨rest, h⟩ ↦ ⟨rest, by grind⟩)
termination_by (ts.length, 4)

/-- The key of a mapping that is an item of a flow sequence. A key that is left out takes the token
before which it was left out with it. -/
def keyOfPair (handles : Handles) (ts : List Lexeme) : Node String × Option (NoMore ts) :=
  match ts with
  | ⟨.value, _⟩ :: rest => (empty, some ⟨rest, by simp⟩)
  | ⟨.flowEntry, _⟩ :: rest => (empty, some ⟨rest, by simp⟩)
  | ⟨.flowSequenceEnd, _⟩ :: rest => (empty, some ⟨rest, by simp⟩)
  | ts =>
    let (key, rest) := read handles .flow ts
    (key, rest.map fun ⟨rest, h⟩ ↦ ⟨rest, Nat.le_of_lt h⟩)
termination_by (ts.length, 3)

def moreFlowItems (handles : Handles) (start : Mark) (ts : List Lexeme) :
    List (Node String) × Option (Fewer ts) :=
  match ts with
  | ⟨.flowSequenceEnd, _⟩ :: rest => ([], some ⟨rest, by simp⟩)
  | ⟨.flowEntry, _⟩ :: rest =>
    let (items, rest) := flowItems handles start rest
    (items, rest.map fun ⟨rest, h⟩ ↦ ⟨rest, by grind⟩)
  | ts =>
    ([.broken ((Lexeme.first ts).fault .sequenceCommaOrEnd (some (.flowSequence, start)))], none)
termination_by (ts.length, 0)

/-- The entries of a flow mapping up to its end. An entry without a value is a key alone. -/
def flowEntries (handles : Handles) (start : Mark) (ts : List Lexeme) :
    List (Node String × Node String) × Option (Fewer ts) :=
  match ts with
  | ⟨.flowMappingEnd, _⟩ :: rest => ([], some ⟨rest, by simp⟩)
  | ⟨.key, _⟩ :: rest =>
    match readOr handles .flow (fun t ↦ t = .value || isEntryStop t) rest with
    | (key, none) => ([(key, empty)], none)
    | (key, some ⟨rest, h⟩) =>
      match value handles .flow isEntryStop rest with
      | (value, none) => ([(key, value)], none)
      | (value, some ⟨rest, h⟩) =>
        let (entries, rest) := moreFlowEntries handles start rest
        ((key, value) :: entries, rest.map fun ⟨rest, h⟩ ↦ ⟨rest, by grind⟩)
  | ts =>
    match read handles .flow ts with
    | (key, none) => ([(key, empty)], none)
    | (key, some ⟨rest, h⟩) =>
      let (entries, rest) := moreFlowEntries handles start rest
      ((key, empty) :: entries, rest.map fun ⟨rest, h⟩ ↦ ⟨rest, by grind⟩)
termination_by (ts.length, 4)

def moreFlowEntries (handles : Handles) (start : Mark) (ts : List Lexeme) :
    List (Node String × Node String) × Option (Fewer ts) :=
  match ts with
  | ⟨.flowMappingEnd, _⟩ :: rest => ([], some ⟨rest, by simp⟩)
  | ⟨.flowEntry, _⟩ :: rest =>
    let (entries, rest) := flowEntries handles start rest
    (entries, rest.map fun ⟨rest, h⟩ ↦ ⟨rest, by grind⟩)
  | ts =>
    let fault := (Lexeme.first ts).fault .mappingCommaOrEnd (some (.flowMapping, start))
    ([(.broken fault, empty)], none)
termination_by (ts.length, 0)

end

/-- The directives before a document: whether there is a version, the handles, and the tokens that
follow. A version other than 1.1 and 1.2, a second one, and a second meaning of a handle are
refused. -/
def directives (version : Bool) (handles : Handles) :
    List Lexeme → Except Fault (Handles × List Lexeme)
  | ⟨.version major minor, mark⟩ :: rest =>
    if version then .error (.malformed .repeatedVersion mark none)
    else if major ≠ 1 ∨ (minor ≠ 1 ∧ minor ≠ 2) then .error (.malformed .otherVersion mark none)
    else directives true handles rest
  | ⟨.tagHandle handle meaning, mark⟩ :: rest =>
    if (handles.lookup handle).isSome then .error (.malformed .repeatedHandle mark none)
    else directives version ((handle, meaning) :: handles) rest
  | rest => .ok (handles, rest)

/-- Whether a document that was announced ends before a token without having any node. -/
def isDocumentStop : Token → Bool
  | .version .. | .tagHandle .. | .documentStart | .documentEnd | .streamEnd => true
  | _ => false

def isAnnouncement : Token → Bool
  | .version .. | .tagHandle .. | .documentStart => true
  | _ => false

/-- The fault after the node of the only document of a stream, if there is one. -/
def faultAfter? (ts : List Lexeme) : Option Fault :=
  match (Lexeme.first ts).token with
  | .broken fault => some fault
  | _ =>
    match (Lexeme.first (ts.dropWhile (·.token = .documentEnd))).token with
    | .streamEnd => none
    | _ => some .severalDocuments

/-- The node of the first document of a stream, and the fault after it, if there is one. A stream
without tokens is an empty node. -/
def ofTokens (ts : List Lexeme) : Node String × Option Fault :=
  let first := (Lexeme.first ts).token
  if first = .streamEnd then (empty, none)
  else if isAnnouncement first then
    match directives false [] ts with
    | .error fault => (.broken fault, none)
    | .ok (handles, after) =>
      match (Lexeme.first after).token with
      | .documentStart =>
        match readOr (handles ++ standardHandles) .block isDocumentStop (after.drop 1) with
        | (node, none) => (node, none)
        | (node, some ⟨rest, _⟩) => (node, faultAfter? rest)
      | _ => (.broken ((Lexeme.first after).fault .documentStart none), none)
  else
    match read standardHandles .block ts with
    | (node, none) => (node, none)
    | (node, some ⟨rest, _⟩) => (node, faultAfter? rest)

end Node

end Reactor.Yaml

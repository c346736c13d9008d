import Reactor.Yaml.Lexer
import Reactor.Yaml.Scalar

/-!
# The document of a YAML text

A node becomes a JSON document by replacing aliases with the nodes that they refer to and scalars
with what they mean. Three things keep this within bounds: collections are nested at most 128 deep,
aliases are followed at most a hundred times per event of the text, and an alias refers only to an
anchor before it.
-/

namespace Reactor.Yaml

namespace Node

variable {ρ : Type}

def anchor? : Node ρ → Option String
  | reference _ _ => none
  | scalar properties _ _ => properties.anchor
  | sequence properties _ => properties.anchor
  | mapping properties _ => properties.anchor
  | broken _ => none

/-! ## Anchors

Anchors are numbered. The number of an anchor is that of the different names before it, so an
anchor whose name was used before takes a new number, which the next new name takes as well. An
alias refers to the last node of the text whose anchor has the number that its name has at the
place of the alias. -/

/-- The names of the anchors seen so far, and the last number of each. -/
abbrev Anchors := List (String × Nat)

def Anchors.add (anchors : Anchors) : Option String → Anchors
  | none => anchors
  | some name => (name, anchors.length) :: anchors.filter (·.1 ≠ name)

mutual

/-- The node with numbers for names, and the anchors after it. An alias for an anchor that is not
known is a fault. -/
def number (anchors : Anchors) : Node String → Node Nat × Anchors
  | reference mark name =>
    match anchors.lookup name with
    | some number => (reference mark number, anchors)
    | none => (broken (.unknownAnchor mark), anchors)
  | scalar properties text plain =>
    (scalar properties text plain, anchors.add properties.anchor)
  | sequence properties items =>
    let (items, anchors) := numberItems (anchors.add properties.anchor) items
    (sequence properties items, anchors)
  | mapping properties entries =>
    let (entries, anchors) := numberEntries (anchors.add properties.anchor) entries
    (mapping properties entries, anchors)
  | broken fault => (broken fault, anchors)

def numberItems (anchors : Anchors) : List (Node String) → List (Node Nat) × Anchors
  | [] => ([], anchors)
  | item :: rest =>
    let (item, anchors) := number anchors item
    let (rest, anchors) := numberItems anchors rest
    (item :: rest, anchors)

def numberEntries (anchors : Anchors) :
    List (Node String × Node String) → List (Node Nat × Node Nat) × Anchors
  | [] => ([], anchors)
  | (key, value) :: rest =>
    let (key, anchors) := number anchors key
    let (value, anchors) := number anchors value
    let (rest, anchors) := numberEntries anchors rest
    ((key, value) :: rest, anchors)

end

mutual

/-- The nodes with anchors, in the order of their starts, before those in `later`. -/
def anchored (later : List (Node ρ)) : Node ρ → List (Node ρ)
  | reference _ _ => later
  | broken _ => later
  | scalar properties text plain =>
    if properties.anchor.isSome then scalar properties text plain :: later else later
  | sequence properties items =>
    let inner := anchoredItems later items
    if properties.anchor.isSome then sequence properties items :: inner else inner
  | mapping properties entries =>
    let inner := anchoredEntries later entries
    if properties.anchor.isSome then mapping properties entries :: inner else inner

def anchoredItems (later : List (Node ρ)) : List (Node ρ) → List (Node ρ)
  | [] => later
  | item :: rest => anchored (anchoredItems later rest) item

def anchoredEntries (later : List (Node ρ)) : List (Node ρ × Node ρ) → List (Node ρ)
  | [] => later
  | (key, value) :: rest => anchored (anchored (anchoredEntries later rest) value) key

end

/-- The nodes that aliases refer to, by number: later nodes hide earlier ones. -/
def targets (anchors : Anchors) : List (Node ρ) → List (Nat × Node ρ) → List (Nat × Node ρ)
  | [], found => found
  | node :: rest, found =>
    targets (anchors.add node.anchor?) rest ((anchors.length, node) :: found)

/-! ## Size -/

mutual

/-- The number of events of a node: one for a scalar or an alias, and two for the ends of a
collection. -/
def eventCount : Node ρ → Nat
  | broken _ => 0
  | reference _ _ => 1
  | scalar _ _ _ => 1
  | sequence _ items => 2 + eventCountItems items
  | mapping _ entries => 2 + eventCountEntries entries

def eventCountItems : List (Node ρ) → Nat
  | [] => 0
  | item :: rest => eventCount item + eventCountItems rest

def eventCountEntries : List (Node ρ × Node ρ) → Nat
  | [] => 0
  | (key, value) :: rest => eventCount key + eventCount value + eventCountEntries rest

end

/-! ## Documents -/

/-- A computation that may fail and may follow a limited number of aliases. -/
abbrev Following := StateT Nat (Except Fault)

def follow (targets : List (Nat × Node Nat)) (mark : Mark) (number : Nat) :
    Following (Node Nat) := do
  match ← get with
  | 0 => throw .tooManyAliases
  | left + 1 =>
    set left
    match targets.lookup number with
    | none => throw (.unknownAnchor mark)
    | some node => pure node

/-- The node itself, or the node that it refers to, and the route to it. -/
def target (targets : List (Nat × Node Nat)) (route : Route) :
    Node Nat → Following (Node Nat × Route)
  | reference mark number => (·, .alias_ route) <$> follow targets mark number
  | node => pure (node, route)

/-- The text of a key of the mapping that `route` leads to. It has to be a scalar, whose type does
not matter. -/
def keyText (targets : List (Nat × Node Nat)) (route : Route) (key : Node Nat) :
    Following String := do
  let (key, route) ← target targets route key
  match key with
  | scalar _ text _ => pure text
  | sequence properties _ => throw (.value route .sequenceKey properties.mark)
  | mapping properties _ => throw (.value route .mappingKey properties.mark)
  | broken fault => throw fault
  | reference mark _ => throw (.unknownAnchor mark)

def routeUnder (route : Route) : Node Nat → Route
  | scalar _ text _ => .entry route text
  | _ => .unnamed route

def checkTag (route : Route) (properties : Properties) : Following Unit :=
  if properties.tag.any Scalar.isApplicationTag then
    throw (.value route .applicationTag properties.mark)
  else pure ()

def scalarJson (route : Route) (properties : Properties) (text : String) (plain : Bool) :
    Following Json :=
  match Scalar.toJson properties.tag text plain with
  | .ok document => pure document
  | .error problem => throw (.value route problem properties.mark)

/-- The document of the node that `route` leads to, with collections nested at most `depth`
deep. -/
def toJson (targets : List (Nat × Node Nat)) :
    (depth : Nat) → Route → Node Nat → Following Json
  | 0, route, node => do
    let (node, route) ← target targets route node
    match node with
    | scalar properties text plain => scalarJson route properties text plain
    | sequence properties _ => do
      checkTag route properties
      throw (.tooDeep properties.mark)
    | mapping properties _ => do
      checkTag route properties
      throw (.tooDeep properties.mark)
    | broken fault => throw fault
    | reference mark _ => throw (.unknownAnchor mark)
  | depth + 1, route, node => do
    let (node, route) ← target targets route node
    match node with
    | scalar properties text plain => scalarJson route properties text plain
    | sequence properties items => do
      checkTag route properties
      .array <$> items.zipIdx.mapM fun (item, index) ↦
        toJson targets depth (.item route index) item
    | mapping properties entries => do
      checkTag route properties
      .object <$> entries.mapM fun (key, value) ↦ do
        let text ← keyText targets route key
        let value ← toJson targets depth (routeUnder route key) value
        pure (text, value)
    | broken fault => throw fault
    | reference mark _ => throw (.unknownAnchor mark)

/-- How deep collections may be nested. -/
def maxDepth : Nat :=
  128

/-- How often aliases may be followed per event. -/
def followsPerEvent : Nat :=
  100

def document (node : Node String) : Except Fault Json :=
  let (node, _) := number [] node
  let targets := targets [] (anchored [] node) []
  (toJson targets maxDepth .root node).run' (followsPerEvent * node.eventCount)

end Node

def parse (text : String) : Except Fault Json := do
  let (node, after) := Node.ofTokens (Token.ofText text)
  let document ← node.document
  match after with
  | some fault => .error fault
  | none => .ok document

end Reactor.Yaml

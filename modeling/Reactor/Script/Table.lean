import Reactor.Script.Item

/-!
# Tables

A table has two parts: items, which are numbered from one on, and nodes, each of which holds any
key with its value. A script can see which part a value is in: the length of a table with gaps is
found from the sizes of the parts, and so is the order of its entries. So the rules by which the
parts grow are given here in full.

A node belongs to the chain that starts at the main position of its key. A new key goes to its main
position if no value is there. Otherwise the last free node is taken: for the value in the way if
that is not at the main position of its own key, and else for the new key. If no node is free, both
parts get the sizes that suit the keys that are there.
-/

namespace Reactor.Script

structure Table.Node where
  /-- Nil if the node was never used. -/
  key : Item
  /-- Nil if there is no entry here. -/
  value : Item
  /-- The next node of the chain. -/
  next : Option Nat
  deriving Inhabited

structure Table where
  /-- The items `1`, `2` and so on, nil where there is none. -/
  items : Array Item
  /-- Where the search for the length starts, at most the number of items. -/
  limit : Nat
  nodes : Array Table.Node
  /-- No node from this one on is free. -/
  free : Nat
  /-- The table of the operations that are defined for this one. -/
  metatable : Option Nat
  deriving Inhabited

namespace Table

def empty : Table :=
  ⟨#[], 0, #[], 0, none⟩

/-- The least `k` such that `n` is at most `2 ^ k`. -/
def ceilLog (n : Nat) : Nat :=
  if n ≤ 1 then 0 else (n - 1).log2 + 1

/-- Whether a number is zero or a power of two. -/
def isPower (n : Nat) : Bool :=
  n = 0 || n = Nat.pow 2 n.log2

/-! ## Positions -/

def stringCode (bytes : ByteArray) : UInt64 :=
  bytes.foldl (fun code b ↦ code * 31 + b.toUInt64) bytes.size.toUInt64

/-- A number that is computed from a finite float: its mantissa, cut to thirty-one bits, and its
exponent, added as words of thirty-two bits. -/
def floatCode (x : Float) : Nat :=
  if x.isInf then 0
  else
    let b := Decimal.Binary.ofBits x.toBits
    let length := b.significand.log2 + 1
    let magnitude := b.significand * 0x80000000 / Nat.pow 2 length
    let mantissa : Int := if x < 0 then -magnitude else magnitude
    let code := ((b.exponent + length + mantissa) % 0x100000000).toNat
    if code < 0x80000000 then code else 0xFFFFFFFF - code

/-- The main position of a key among `size` nodes, where `size` is a power of two. -/
def mainPosition (size : Nat) : Item → Nat
  | .number (.int n) => n.toUInt64.toNat % ((size - 1) ||| 1)
  | .number (.float x) => floatCode x % ((size - 1) ||| 1)
  | .bool value => value.toNat % size
  | .string bytes => (stringCode bytes).toNat % size
  | .table id => id % ((size - 1) ||| 1)
  | .closure id => id % ((size - 1) ||| 1)
  | .thread id => id % ((size - 1) ||| 1)
  | .file id => id % ((size - 1) ||| 1)
  | _ => 0

/-- The node with a key on the chain from a node on, of which at most `rounds` nodes are looked
at. -/
def onChain? (nodes : Array Node) (key : Item) (index : Nat) : (rounds : Nat) → Option Nat
  | 0 => none
  | rounds + 1 =>
    match nodes[index]? with
    | none => none
    | some node =>
      if node.key.same key then some index
      else
        match node.next with
        | none => none
        | some next => onChain? nodes key next rounds

inductive Position where
  | item (index : Nat)
  | node (index : Nat)

def position? (t : Table) (key : Item) : Option Position :=
  let among : Option Position :=
    if t.nodes.isEmpty then none
    else (onChain? t.nodes key (mainPosition t.nodes.size key) t.nodes.size).map .node
  match key with
  | .number (.int n) =>
    if 1 ≤ n ∧ n.toInt ≤ t.items.size then some (.item (n.toInt.toNat - 1)) else among
  | _ => among

/-! ## Values -/

def item (t : Table) (index : Nat) : Item :=
  t.items[index]?.getD .nil

def get (t : Table) (key : Item) : Item :=
  match key.asKey?.bind t.position? with
  | some (.item index) => t.item index
  | some (.node index) => (t.nodes[index]?.map Node.value).getD .nil
  | none => .nil

def isAbsent (t : Table) (index : Nat) : Bool :=
  (t.get (.ofInt index)).isNil

/-- A table after a look at a key. A look at an item beyond the start of the search for the length
moves the start there. -/
def touch (t : Table) (key : Item) : Table :=
  if t.limit = t.items.size then t
  else
    match key.asKey? with
    | some (.number (.int n)) =>
      if t.limit < n.toInt ∧ n.toInt ≤ t.items.size then { t with limit := n.toInt.toNat } else t
    | _ => t

/-! ## New keys -/

def freeNode? (nodes : Array Node) : (below : Nat) → Option Nat
  | 0 => none
  | below + 1 =>
    match nodes[below]? with
    | some node => if node.key.isNil then some below else freeNode? nodes below
    | none => freeNode? nodes below

/-- The node before another one on a chain, of which at most `rounds` nodes are looked at. -/
def before (nodes : Array Node) (target index : Nat) : (rounds : Nat) → Nat
  | 0 => index
  | rounds + 1 =>
    match (nodes[index]?.bind Node.next) with
    | some next => if next = target then index else before nodes target next rounds
    | none => index

inductive Room where
  /-- At its main position. -/
  | main (index : Nat)
  /-- At a free node, behind the key at its main position. -/
  | behind (main free : Nat)
  /-- At its main position, after what is there has moved to a free node. The node before that one
  on its chain is given. -/
  | instead (main free previous : Nat)

/-- The room for a new key among the nodes, if there is some. -/
def room? (t : Table) (key : Item) : Option Room := do
  let size := t.nodes.size
  let main := mainPosition size key
  let occupant ← t.nodes[main]?
  if occupant.value.isNil then some (.main main)
  else
    let free ← freeNode? t.nodes t.free
    let home := mainPosition size occupant.key
    some (if home = main then .behind main free
      else .instead main free (before t.nodes main home size))

def occupy (t : Table) (room : Room) (key value : Item) : Table :=
  match room with
  | .main index =>
    { t with nodes := t.nodes.modify index fun node ↦ { node with key, value } }
  | .behind main free =>
    let next := (t.nodes[main]?.map Node.next).join
    { t with
      free
      nodes := (t.nodes.setIfInBounds free ⟨key, value, next⟩).modify main fun node ↦
        { node with next := some free } }
  | .instead main free previous =>
    let occupant := t.nodes[main]?.getD ⟨.nil, .nil, none⟩
    let nodes := t.nodes.modify previous fun node ↦ { node with next := some free }
    { t with
      free
      nodes := (nodes.setIfInBounds free occupant).setIfInBounds main ⟨key, value, none⟩ }

def put (t : Table) (position : Position) (value : Item) : Table :=
  match position with
  | .item index => { t with items := t.items.setIfInBounds index value }
  | .node index => { t with nodes := t.nodes.modify index fun node ↦ { node with value } }

/-- The table with a new value at a key in the form in which it is stored, if no part has to grow
for it. Nil is not stored at a new key. -/
def store (t : Table) (key value : Item) : Table :=
  match t.position? key with
  | some position => t.put position value
  | none =>
    if value.isNil then t
    else
      match t.room? key with
      | some room => t.occupy room key value
      | none => t

/-! ## Growing -/

def itemEntries (t : Table) (start : Nat) : List (Item × Item) :=
  ((t.items.toList.zipIdx 1).drop start).filterMap fun (value, index) ↦
    if value.isNil then none else some (.ofInt index, value)

def nodeEntries (t : Table) : List (Item × Item) :=
  t.nodes.toList.filterMap fun node ↦
    if node.value.isNil then none else some (node.key, node.value)

/-- All entries whose value is not nil, the items first. -/
def pairs (t : Table) : List (Item × Item) :=
  t.itemEntries 0 ++ t.nodeEntries

/-- The table with parts of other sizes, of which that of the nodes becomes a power of two. Items
that are cut off become nodes, and nodes become items where they can. -/
def resize (t : Table) (itemCount nodeCount : Nat) : Table :=
  let size := if nodeCount = 0 then 0 else Nat.pow 2 (ceilLog nodeCount)
  let cut : Table :=
    { t with
      items := t.items.take itemCount ++ Array.replicate (itemCount - t.items.size) .nil
      limit := itemCount
      nodes := Array.replicate size ⟨.nil, .nil, none⟩
      free := size }
  (t.itemEntries itemCount ++ t.nodeEntries).foldl (fun new (key, value) ↦ new.store key value) cut

/-- The greatest index that counts when the number of items is chosen. -/
def maxItems : Nat :=
  0x80000000

/-- Adds a key to the numbers of indices: the number at `k` is that of the indices from
`2 ^ (k - 1)`, without it, up to `2 ^ k`. -/
def tally (counts : Array Nat) (key : Item) : Array Nat :=
  match key with
  | .number (.int n) =>
    if 1 ≤ n ∧ n.toInt ≤ maxItems then counts.modify (ceilLog n.toInt.toNat) (· + 1) else counts
  | _ => counts

/-- The greatest power of two of which more than half of the indices are used, and how many of them
are: `best` and `kept` unless a greater one follows. There are `total` indices, of which `seen`
are below those that are left to count. -/
def bestSize (total power seen best kept : Nat) : List Nat → Nat × Nat
  | [] => (best, kept)
  | count :: rest =>
    if total ≤ power / 2 then (best, kept)
    else if power / 2 < seen + count then
      bestSize total (2 * power) (seen + count) power (seen + count) rest
    else bestSize total (2 * power) (seen + count) best kept rest

/-- The table with parts of the sizes that suit its keys and a further one. -/
def grow (t : Table) (key : Item) : Table :=
  let entries := t.pairs
  let counts :=
    tally (entries.foldl (fun counts entry ↦ tally counts entry.1) (Array.replicate 32 0)) key
  let total := counts.foldl (· + ·) 0
  let (size, kept) := bestSize total 1 0 0 0 counts.toList
  t.resize size (entries.length + 1 - kept)

def set (t : Table) (key value : Item) : Table :=
  match key.asKey? with
  | none => t
  | some key =>
    let t := t.touch key
    match t.position? key with
    | some position => t.put position value
    | none =>
      if value.isNil then t
      else if (t.room? key).isSome then t.store key value
      else (t.grow key).store key value

def sized (itemCount nodeCount : Nat) : Table :=
  empty.resize itemCount nodeCount

/-- The table with values as its items after the first `offset`. -/
def setItems (t : Table) (offset : Nat) (values : List Item) : Table :=
  let last := offset + values.length
  let t := if t.items.size < last then t.resize last t.nodes.size else t
  { t with
    items := (values.zipIdx offset).foldl (fun items (value, index) ↦
      items.setIfInBounds index value) t.items }

def ofNames (entries : List (String × Item)) : Table :=
  entries.foldl (fun t (name, value) ↦ t.set (.ofText name) value) empty

/-! ## Length -/

/-- A border between two positions, given that there is an item at the lower one, or that it is
zero, and none at the upper one. Halves the distance at most `steps` times. -/
def search (isAbsent : Nat → Bool) (low high : Nat) : (steps : Nat) → Nat
  | 0 => low
  | steps + 1 =>
    if high ≤ low + 1 then low
    else
      let middle := (low + high) / 2
      if isAbsent middle then search isAbsent low middle steps
      else search isAbsent middle high steps

/-- A border among the nodes, given that there are entries at `low` and, if `low` is zero, at one.
The position is doubled until there is no entry. -/
def searchNodes (t : Table) (low : Nat) : (steps : Nat) → Nat
  | 0 => low
  | steps + 1 =>
    if 0x7FFFFFFFFFFFFFFF / 2 < low then
      if t.isAbsent 0x7FFFFFFFFFFFFFFF then search t.isAbsent low 0x7FFFFFFFFFFFFFFF 64
      else 0x7FFFFFFFFFFFFFFF
    else if t.isAbsent (2 * low) then search t.isAbsent low (2 * low) 64
    else searchNodes t (2 * low) steps

/-- The length of a table, and where the next search for it starts. The length is some `n` such that
there is an item `n`, or `n` is zero, and there is no item `n + 1`. -/
def measure (t : Table) : Nat × Nat :=
  let size := t.items.size
  let isGap (index : Nat) : Bool := (t.item (index - 1)).isNil
  let beyond : Nat × Nat :=
    if t.nodes.isEmpty ∨ t.isAbsent (size + 1) then (size, t.limit)
    else (t.searchNodes (max size 1) 64, t.limit)
  if 0 < t.limit ∧ isGap t.limit then
    if 2 ≤ t.limit ∧ ¬isGap (t.limit - 1) then
      let keep := isPower size ∧ ¬isPower (t.limit - 1)
      (t.limit - 1, if keep then t.limit - 1 else t.limit)
    else
      let found := search isGap 0 t.limit 64
      (found, if isPower size ∧ size / 2 < found then found else t.limit)
  else if t.limit < size then
    if isGap (t.limit + 1) then (t.limit, t.limit)
    else if isGap size then
      let found := search isGap t.limit size 64
      (found, found)
    else beyond
  else beyond

def border (t : Table) : Nat :=
  t.measure.1

/-! ## Order -/

/-- The first entry from a position on, where positions count the items and then the nodes. At most
`rounds` positions are looked at. -/
def entryFrom? (t : Table) (position : Nat) : (rounds : Nat) → Option (Item × Item)
  | 0 => none
  | rounds + 1 =>
    if position < t.items.size then
      let value := t.item position
      if value.isNil then entryFrom? t (position + 1) rounds
      else some (.ofInt (position + 1), value)
    else
      match t.nodes[position - t.items.size]? with
      | none => none
      | some node =>
        if node.value.isNil then entryFrom? t (position + 1) rounds
        else some (node.key, node.value)

/-- The entry after a key, none after the last one. The first entry comes after nil. There must be
a place of the key. -/
def after? (t : Table) (key : Item) : Option (Option (Item × Item)) :=
  let rounds := t.items.size + t.nodes.size + 1
  if key.isNil then some (t.entryFrom? 0 rounds)
  else
    (key.asKey?.bind t.position?).map fun
      | .item index => t.entryFrom? (index + 1) rounds
      | .node index => t.entryFrom? (t.items.size + index + 1) rounds

end Table

end Reactor.Script

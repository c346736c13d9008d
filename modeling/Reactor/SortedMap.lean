/-!
# Maps from strings, kept in key order

A finite map from strings is the list of its entries with strictly increasing keys. Strings are
ordered by code point. Equal maps are equal lists, so a map also fixes the order in which its
entries are written and visited.
-/

namespace Reactor

/-- A finite map from strings. -/
structure SortedMap (α : Type) where
  /-- The entries in key order. -/
  entries : List (String × α)
  /-- No key occurs twice, and smaller keys come first. -/
  increasing : entries.Pairwise fun a b ↦ a.1 < b.1

namespace SortedMap

variable {α β : Type}

/-- Insertion into a list of entries in key order. An entry with the same key is replaced. -/
def insertEntry (key : String) (value : α) : List (String × α) → List (String × α)
  | [] => [(key, value)]
  | (k, v) :: rest =>
    if key < k then (key, value) :: (k, v) :: rest
    else if key = k then (key, value) :: rest
    else (k, v) :: insertEntry key value rest

theorem mem_insertEntry {key : String} {value : α} {entry : String × α}
    {entries : List (String × α)} (h : entry ∈ insertEntry key value entries) :
    entry = (key, value) ∨ entry ∈ entries := by
  induction entries with
  | nil => simpa [insertEntry] using h
  | cons head rest ih =>
    obtain ⟨k, v⟩ := head
    unfold insertEntry at h
    split at h
    · simpa using h
    · split at h
      · rcases List.mem_cons.1 h with h | h
        · exact .inl h
        · exact .inr (List.mem_cons_of_mem _ h)
      · rcases List.mem_cons.1 h with h | h
        · exact .inr (h ▸ List.mem_cons_self)
        · exact (ih h).imp id (List.mem_cons_of_mem _)

theorem insertEntry_increasing (key : String) (value : α) {entries : List (String × α)}
    (h : entries.Pairwise fun a b ↦ a.1 < b.1) :
    (insertEntry key value entries).Pairwise fun a b ↦ a.1 < b.1 := by
  induction entries with
  | nil => simp [insertEntry]
  | cons head rest ih =>
    obtain ⟨k, v⟩ := head
    obtain ⟨hhead, hrest⟩ := List.pairwise_cons.1 h
    unfold insertEntry
    split
    case isTrue hlt =>
      refine List.pairwise_cons.2 ⟨fun entry hentry ↦ ?_, h⟩
      rcases List.mem_cons.1 hentry with rfl | hentry
      · exact hlt
      · exact String.lt_trans hlt (hhead entry hentry)
    case isFalse hlt =>
      split
      case isTrue heq => exact List.pairwise_cons.2 ⟨heq ▸ hhead, hrest⟩
      case isFalse hne =>
        refine List.pairwise_cons.2 ⟨fun entry hentry ↦ ?_, ih hrest⟩
        rcases mem_insertEntry hentry with rfl | hentry
        · exact Classical.byContradiction fun hkey ↦
            hne (String.le_antisymm (String.not_lt.1 hkey) (String.not_lt.1 hlt))
        · exact hhead entry hentry

def empty : SortedMap α :=
  ⟨[], .nil⟩

instance : EmptyCollection (SortedMap α) :=
  ⟨empty⟩

instance : Inhabited (SortedMap α) :=
  ⟨empty⟩

def isEmpty (m : SortedMap α) : Bool :=
  m.entries.isEmpty

def get? (m : SortedMap α) (key : String) : Option α :=
  m.entries.lookup key

def keys (m : SortedMap α) : List String :=
  m.entries.map Prod.fst

def insert (m : SortedMap α) (key : String) (value : α) : SortedMap α :=
  ⟨insertEntry key value m.entries, insertEntry_increasing key value m.increasing⟩

def erase (m : SortedMap α) (key : String) : SortedMap α :=
  ⟨m.entries.filter (·.1 ≠ key), m.increasing.filter _⟩

/-- The map with the given entries. Of several entries with one key the last one counts. -/
def ofList (entries : List (String × α)) : SortedMap α :=
  entries.foldl (fun m entry ↦ m.insert entry.1 entry.2) ∅

/-- Both maps as one, in which the entries of `top` hide those of `base`. -/
def overlay (base top : SortedMap α) : SortedMap α :=
  top.entries.foldl (fun m entry ↦ m.insert entry.1 entry.2) base

def map (f : α → β) (m : SortedMap α) : SortedMap β :=
  ⟨m.entries.map fun entry ↦ (entry.1, f entry.2), m.increasing.map _ fun _ _ h ↦ h⟩

/-- The map with `f` applied to every value, in key order, for an `f` that may fail or have
effects. -/
def mapM {m : Type → Type} [Monad m] (f : α → m β) (values : SortedMap α) : m (SortedMap β) :=
  ofList <$> values.entries.mapM fun entry ↦ (entry.1, ·) <$> f entry.2

end SortedMap

end Reactor

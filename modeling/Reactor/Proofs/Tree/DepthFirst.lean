import Mathlib.Data.List.Sort
import Reactor.Proofs.Tree.ErrorModes

/-!
# Depth-first order

The entries of a tree stand at places. A place is the list of the indices of entries that lead from
the root of the tree down to an entry, and the lexicographic order of places is the depth-first
order of what is declared. The failures of a tree are listed in this order, and each of them once.
-/

namespace Reactor

/-! ## Lists of what stands at places -/

/-- Whether a list holds everything that stands at some place, in the order of the places. -/
def Enumerates {α : Type} (stands : List Nat → α → Prop) (items : List α) : Prop :=
  ∃ placed : List (List Nat × α), placed.map Prod.snd = items ∧
    placed.Pairwise (fun a b ↦ a.1 < b.1) ∧
    ∀ place item, stands place item ↔ (place, item) ∈ placed

namespace Enumerates

variable {α : Type} {stands stands' : List Nat → α → Prop} {items items' : List α} {item : α}

theorem nil (h : ∀ place item, ¬stands place item) : Enumerates stands [] :=
  ⟨[], rfl, .nil, fun place item ↦ iff_of_false (h place item) List.not_mem_nil⟩

theorem congr (h : Enumerates stands items)
    (hsame : ∀ place item, stands' place item ↔ stands place item) : Enumerates stands' items := by
  obtain ⟨placed, hitems, hincreasing, hall⟩ := h
  exact ⟨placed, hitems, hincreasing, fun place item ↦ (hsame place item).trans (hall place item)⟩

theorem single (place : List Nat) (item : α) :
    Enumerates (fun other entry ↦ other = place ∧ entry = item) [item] := by
  refine ⟨[(place, item)], rfl, List.pairwise_singleton _ _, ?_⟩
  intro other entry
  rw [List.mem_singleton, Prod.mk.injEq]

/-- What stands further on comes later in the list. -/
theorem append (h : Enumerates stands items) (h' : Enumerates stands' items')
    (hlt : ∀ place item place' item', stands place item → stands' place' item' → place < place') :
    Enumerates (fun place item ↦ stands place item ∨ stands' place item) (items ++ items') := by
  obtain ⟨placed, rfl, hincreasing, hall⟩ := h
  obtain ⟨placed', rfl, hincreasing', hall'⟩ := h'
  refine ⟨placed ++ placed', List.map_append, ?_, ?_⟩
  · refine List.pairwise_append.2 ⟨hincreasing, hincreasing', ?_⟩
    rintro ⟨place, item⟩ hitem ⟨place', item'⟩ hitem'
    exact hlt place item place' item' ((hall place item).2 hitem) ((hall' place' item').2 hitem')
  · intro place item
    rw [List.mem_append]
    exact or_congr (hall place item) (hall' place item)

/-- Moving all places keeps the list, if it keeps their order. -/
theorem map {f : List Nat → List Nat} (hf : ∀ place place', place < place' → f place < f place')
    (h : Enumerates stands items) :
    Enumerates (fun place item ↦ ∃ inner, place = f inner ∧ stands inner item) items := by
  obtain ⟨placed, rfl, hincreasing, hall⟩ := h
  refine ⟨placed.map fun entry ↦ (f entry.1, entry.2), ?_, ?_, ?_⟩
  · rw [List.map_map]
    rfl
  · exact hincreasing.map _ fun a b ↦ hf a.1 b.1
  · intro place item
    rw [List.mem_map]
    constructor
    · rintro ⟨inner, rfl, hitem⟩
      exact ⟨(inner, item), (hall inner item).1 hitem, rfl⟩
    · rintro ⟨⟨inner, other⟩, hother, hsame⟩
      obtain ⟨rfl, rfl⟩ := Prod.mk.inj hsame
      exact ⟨inner, rfl, (hall inner other).2 hother⟩

theorem mem_iff (h : Enumerates stands items) : item ∈ items ↔ ∃ place, stands place item := by
  obtain ⟨placed, rfl, -, hall⟩ := h
  simp [hall]

/-- Nothing stands anywhere if and only if the list is empty. -/
theorem eq_nil_iff (h : Enumerates stands items) :
    items = [] ↔ ∀ place item, ¬stands place item := by
  rw [List.eq_nil_iff_forall_not_mem]
  simp only [h.mem_iff, not_exists]
  exact forall_comm

/-- What stands where determines the list. -/
theorem unique (h : Enumerates stands items) (h' : Enumerates stands items') : items = items' := by
  obtain ⟨placed, rfl, hincreasing, hall⟩ := h
  obtain ⟨placed', rfl, hincreasing', hall'⟩ := h'
  have hirrefl : Std.Irrefl fun a b : List Nat × α ↦ a.1 < b.1 :=
    ⟨fun entry ↦ List.lt_irrefl entry.1⟩
  have hantisymm : Std.Antisymm fun a b : List Nat × α ↦ a.1 < b.1 :=
    ⟨fun entry other hlt hgt ↦ absurd hgt (List.lt_asymm hlt)⟩
  have hsame : placed = placed' := by
    apply hincreasing.eq_of_mem_iff hincreasing'
    rintro ⟨place, item⟩
    rw [← hall, hall']
  rw [hsame]

/-- A search of the list finds what stands first among all that it is looking for. -/
theorem exists_first_of_find? (h : Enumerates stands items) {wanted : α → Bool}
    (hfound : items.find? wanted = some item) :
    ∃ place, stands place item ∧ wanted item = true ∧
      ∀ place' item', stands place' item' → wanted item' = true → ¬place' < place := by
  obtain ⟨placed, rfl, hincreasing, hall⟩ := h
  rw [List.find?_map, Option.map_eq_some_iff] at hfound
  obtain ⟨⟨place, other⟩, hfirst, rfl⟩ := hfound
  obtain ⟨hwanted, before, after, hsplit, hbefore⟩ := List.find?_eq_some_iff_append.1 hfirst
  have hplace : (place, other) ∈ placed := List.mem_of_find?_eq_some hfirst
  refine ⟨place, (hall place other).2 hplace, hwanted, ?_⟩
  intro place' item' hitem' hwanted' hlt
  have hitem := (hall place' item').1 hitem'
  rw [hsplit] at hitem hincreasing
  obtain ⟨-, hlater, -⟩ := List.pairwise_append.1 hincreasing
  rcases List.mem_append.1 hitem with hearlier | hitem
  · simpa [hwanted'] using hbefore _ hearlier
  · rcases List.mem_cons.1 hitem with hsame | hafter
    · obtain ⟨rfl, -⟩ := Prod.mk.inj hsame
      exact List.lt_irrefl place' hlt
    · have hgt : place < place' := (List.pairwise_cons.1 hlater).1 _ hafter
      exact List.lt_irrefl place (List.lt_trans hgt hlt)

end Enumerates

/-! ## Entries at places -/

namespace ProjectTree

variable {tree : ProjectTree} {entry : ModuleEntry} {entries rest : List ModuleEntry}
  {place below : List Nat} {index : Nat} {failed : ModuleFailure}

def entryAt? (entries : List ModuleEntry) : List Nat → Option ModuleEntry
  | [] => none
  | index :: place =>
    entries[index]?.bind fun entry ↦
      if place = [] then some entry else entry.tree?.bind (entryAt? ·.modules place)

/-- Whether a module fails at a place among and below the given entries. -/
def FailedAt (entries : List ModuleEntry) (place : List Nat) (failed : ModuleFailure) : Prop :=
  ∃ name, entryAt? entries place = some (.failed name failed.path failed.failure)

theorem not_failedAt_root : ¬FailedAt entries [] failed := by
  rintro ⟨name, hentry⟩
  cases hentry

theorem not_failedAt_nil : ¬FailedAt [] place failed := by
  cases place with
  | nil => exact not_failedAt_root
  | cons index below => simp [FailedAt, entryAt?]

/-- The same place seen from one entry earlier. -/
def nextPlace : List Nat → List Nat
  | [] => []
  | index :: place => (index + 1) :: place

theorem nextPlace_lt_nextPlace (place place' : List Nat) (h : place < place') :
    nextPlace place < nextPlace place' := by
  cases place with
  | nil =>
    cases place' with
    | nil => exact h
    | cons index' below' => exact List.nil_lt_cons _ _
  | cons index below =>
    cases place' with
    | nil => cases h
    | cons index' below' =>
      rw [List.cons_lt_cons_iff] at h
      exact List.cons_lt_cons_iff.2 (h.imp Nat.succ_lt_succ (And.imp (congrArg Nat.succ) id))

theorem failedAt_succ :
    FailedAt (entry :: rest) ((index + 1) :: below) failed ↔
      FailedAt rest (index :: below) failed :=
  Iff.rfl

theorem failedAt_zero_failed {name : String} {path : ModulePath} {failure : Failure} :
    FailedAt (.failed name path failure :: rest) (0 :: below) failed ↔
      below = [] ∧ failed = ⟨path, failure⟩ := by
  cases failed
  cases below <;> simp [FailedAt, entryAt?, ModuleEntry.tree?, eq_comm]

theorem failedAt_zero_resolved :
    FailedAt (.resolved tree :: rest) (0 :: below) failed ↔ FailedAt tree.modules below failed := by
  cases below <;> simp [FailedAt, entryAt?, ModuleEntry.tree?]

section Cons

variable {α : Type} {stands first later : List Nat → α → Prop} {items items' : List α}

/-- What stands at or below the first of several entries, followed by what stands at and below the
others. -/
theorem enumerates_cons (hfirst : Enumerates first items) (hlater : Enumerates later items')
    (hroot : ∀ item, ¬stands [] item) (hlaterRoot : ∀ item, ¬later [] item)
    (hzero : ∀ below item, stands (0 :: below) item ↔ first below item)
    (hsucc : ∀ index below item,
      stands ((index + 1) :: below) item ↔ later (index :: below) item) :
    Enumerates stands (items ++ items') := by
  have hhead : Enumerates (fun place item ↦ ∃ below, place = 0 :: below ∧ first below item)
      items := by
    apply hfirst.map
    intro place place' hlt
    exact List.cons_lt_cons_iff.2 (.inr ⟨rfl, hlt⟩)
  refine (hhead.append (hlater.map nextPlace_lt_nextPlace) ?_).congr ?_
  · rintro _ _ _ _ ⟨below, rfl, -⟩ ⟨inner, rfl, hinner⟩
    cases inner with
    | nil => exact absurd hinner (hlaterRoot _)
    | cons index place => exact List.cons_lt_cons_iff.2 (.inl (Nat.succ_pos index))
  · intro place item
    constructor
    · intro h
      cases place with
      | nil => exact absurd h (hroot item)
      | cons index below =>
        cases index with
        | zero => exact .inl ⟨below, rfl, (hzero below item).1 h⟩
        | succ index => exact .inr ⟨index :: below, rfl, (hsucc index below item).1 h⟩
    · rintro (⟨below, rfl, h⟩ | ⟨inner, rfl, h⟩)
      · exact (hzero below item).2 h
      · cases inner with
        | nil => exact absurd h (hlaterRoot item)
        | cons index below => exact (hsucc index below item).2 h

end Cons

mutual

/-- The failures of a tree are its failed entries, each once and in depth-first order. -/
theorem enumerates_failureList :
    (tree : ProjectTree) → Enumerates (FailedAt tree.modules) tree.failureList
  | ⟨_, _, _, modules⟩ => by
    rw [failureList]
    exact enumerates_failuresOfEntries modules

theorem enumerates_failuresOfEntries :
    (entries : List ModuleEntry) → Enumerates (FailedAt entries) (failuresOfEntries entries)
  | [] => by
    rw [failuresOfEntries]
    exact .nil fun place failed ↦ not_failedAt_nil
  | .resolved tree :: rest => by
    rw [failuresOfEntries]
    exact enumerates_cons (enumerates_failureList tree) (enumerates_failuresOfEntries rest)
      (fun _ ↦ not_failedAt_root) (fun _ ↦ not_failedAt_root)
      (fun _ _ ↦ failedAt_zero_resolved) fun _ _ _ ↦ failedAt_succ
  | .failed name path failure :: rest => by
    rw [failuresOfEntries]
    exact enumerates_cons (.single [] ⟨path, failure⟩) (enumerates_failuresOfEntries rest)
      (fun _ ↦ not_failedAt_root) (fun _ ↦ not_failedAt_root)
      (fun _ _ ↦ failedAt_zero_failed) fun _ _ _ ↦ failedAt_succ

end

end ProjectTree

end Reactor

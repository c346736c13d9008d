import Reactor.Proofs.Outcome
import Reactor.Value.Basic

/-!
# Strings in values

Mapping a fallible function over a value applies it to the strings of the value and to nothing else,
so it succeeds exactly when the function succeeds on each of them, and it keeps the shape of the
value.
-/

namespace Reactor.Value

mutual

/-- The strings in a value, depth first. Keys of mappings do not count. -/
def strings : Value → List String
  | string text => [text]
  | sequence items => stringsOfItems items
  | mapping entries => stringsOfEntries entries
  | bool _ => []
  | integer _ => []
  | float _ => []

def stringsOfItems : List Value → List String
  | [] => []
  | item :: rest => strings item ++ stringsOfItems rest

def stringsOfEntries : List (String × Value) → List String
  | [] => []
  | (_, value) :: rest => strings value ++ stringsOfEntries rest

end

variable {ε : Type} {P : ε → Prop} {f : String → Except ε String}

mutual

/-- Mapping over a value fails only as the function fails on one of its strings. -/
theorem failsOnly_mapStringsM (value : Value) (h : ∀ s ∈ value.strings, FailsOnly P (f s)) :
    FailsOnly P (value.mapStringsM f) := by
  cases value with
  | string text =>
    rw [mapStringsM]
    exact (h text (by simp [strings])).map string
  | sequence items =>
    rw [mapStringsM]
    exact (failsOnly_mapItemsM items (by simpa only [strings] using h)).map sequence
  | mapping entries =>
    rw [mapStringsM]
    exact (failsOnly_mapEntriesM entries (by simpa only [strings] using h)).map mapping
  | bool value => rw [mapStringsM]; exact .ok _
  | integer n => rw [mapStringsM]; exact .ok _
  | float x => rw [mapStringsM]; exact .ok _

theorem failsOnly_mapItemsM (items : List Value)
    (h : ∀ s ∈ stringsOfItems items, FailsOnly P (f s)) : FailsOnly P (mapItemsM f items) := by
  cases items with
  | nil => rw [mapItemsM]; exact .ok _
  | cons item rest =>
    rw [stringsOfItems] at h
    rw [mapItemsM]
    refine (failsOnly_mapStringsM item fun s hs ↦ h s (List.mem_append_left _ hs)).bind
      fun value _ ↦ ?_
    exact (failsOnly_mapItemsM rest fun s hs ↦ h s (List.mem_append_right _ hs)).bind
      fun values _ ↦ .ok _

theorem failsOnly_mapEntriesM (entries : List (String × Value))
    (h : ∀ s ∈ stringsOfEntries entries, FailsOnly P (f s)) :
    FailsOnly P (mapEntriesM f entries) := by
  cases entries with
  | nil => rw [mapEntriesM]; exact .ok _
  | cons entry rest =>
    obtain ⟨key, value⟩ := entry
    rw [stringsOfEntries] at h
    rw [mapEntriesM]
    refine (failsOnly_mapStringsM value fun s hs ↦ h s (List.mem_append_left _ hs)).bind
      fun value _ ↦ ?_
    exact (failsOnly_mapEntriesM rest fun s hs ↦ h s (List.mem_append_right _ hs)).bind
      fun values _ ↦ .ok _

end

mutual

/-- If mapping over a value succeeds, the function succeeds on each of its strings. -/
theorem ok_of_mapStringsM {value result : Value} (h : value.mapStringsM f = .ok result)
    {s : String} (hs : s ∈ value.strings) : ∃ t, f s = .ok t := by
  cases value with
  | string text =>
    rw [mapStringsM] at h
    obtain ⟨t, ht, -⟩ := map_eq_ok.1 h
    rw [strings, List.mem_singleton] at hs
    exact ⟨t, hs ▸ ht⟩
  | sequence items =>
    rw [mapStringsM] at h
    obtain ⟨results, hresults, -⟩ := map_eq_ok.1 h
    exact ok_of_mapItemsM hresults (by simpa only [strings] using hs)
  | mapping entries =>
    rw [mapStringsM] at h
    obtain ⟨results, hresults, -⟩ := map_eq_ok.1 h
    exact ok_of_mapEntriesM hresults (by simpa only [strings] using hs)
  | bool value => simp [strings] at hs
  | integer n => simp [strings] at hs
  | float x => simp [strings] at hs

theorem ok_of_mapItemsM {items results : List Value} (h : mapItemsM f items = .ok results)
    {s : String} (hs : s ∈ stringsOfItems items) : ∃ t, f s = .ok t := by
  cases items with
  | nil => simp [stringsOfItems] at hs
  | cons item rest =>
    rw [mapItemsM] at h
    obtain ⟨value, hvalue, h⟩ := bind_eq_ok.1 h
    obtain ⟨values, hvalues, -⟩ := bind_eq_ok.1 h
    rw [stringsOfItems] at hs
    rcases List.mem_append.1 hs with hs | hs
    · exact ok_of_mapStringsM hvalue hs
    · exact ok_of_mapItemsM hvalues hs

theorem ok_of_mapEntriesM {entries results : List (String × Value)}
    (h : mapEntriesM f entries = .ok results) {s : String} (hs : s ∈ stringsOfEntries entries) :
    ∃ t, f s = .ok t := by
  cases entries with
  | nil => simp [stringsOfEntries] at hs
  | cons entry rest =>
    obtain ⟨key, value⟩ := entry
    rw [mapEntriesM] at h
    obtain ⟨value, hvalue, h⟩ := bind_eq_ok.1 h
    obtain ⟨values, hvalues, -⟩ := bind_eq_ok.1 h
    rw [stringsOfEntries] at hs
    rcases List.mem_append.1 hs with hs | hs
    · exact ok_of_mapStringsM hvalue hs
    · exact ok_of_mapEntriesM hvalues hs

end

variable {g : String → Except ε String}

mutual

/-- If one function returns all that another one does, so does mapping it over a value. -/
theorem carriesOver_mapStringsM (h : ∀ s, CarriesOver (f s) (g s)) (value : Value) :
    CarriesOver (value.mapStringsM f) (value.mapStringsM g) := by
  cases value with
  | string text =>
    rw [mapStringsM, mapStringsM]
    exact (h text).map string
  | sequence items =>
    rw [mapStringsM, mapStringsM]
    exact (carriesOver_mapItemsM h items).map sequence
  | mapping entries =>
    rw [mapStringsM, mapStringsM]
    exact (carriesOver_mapEntriesM h entries).map mapping
  | bool value => rw [mapStringsM, mapStringsM]; exact .refl _
  | integer n => rw [mapStringsM, mapStringsM]; exact .refl _
  | float x => rw [mapStringsM, mapStringsM]; exact .refl _

theorem carriesOver_mapItemsM (h : ∀ s, CarriesOver (f s) (g s)) (items : List Value) :
    CarriesOver (mapItemsM f items) (mapItemsM g items) := by
  cases items with
  | nil => rw [mapItemsM, mapItemsM]; exact .refl _
  | cons item rest =>
    rw [mapItemsM, mapItemsM]
    apply (carriesOver_mapStringsM h item).bind
    intro value _
    exact (carriesOver_mapItemsM h rest).bind fun values _ ↦ .refl _

theorem carriesOver_mapEntriesM (h : ∀ s, CarriesOver (f s) (g s))
    (entries : List (String × Value)) :
    CarriesOver (mapEntriesM f entries) (mapEntriesM g entries) := by
  cases entries with
  | nil => rw [mapEntriesM, mapEntriesM]; exact .refl _
  | cons entry rest =>
    obtain ⟨key, value⟩ := entry
    rw [mapEntriesM, mapEntriesM]
    apply (carriesOver_mapStringsM h value).bind
    intro value _
    exact (carriesOver_mapEntriesM h rest).bind fun values _ ↦ .refl _

end

/-! ## What stays of a value -/

mutual

/-- A value with all its strings emptied. What is left are its items and keys, and its scalars that
are not strings. -/
def shape : Value → Value
  | string _ => string ""
  | sequence items => sequence (shapeOfItems items)
  | mapping entries => mapping (shapeOfEntries entries)
  | bool value => bool value
  | integer n => integer n
  | float x => float x

def shapeOfItems : List Value → List Value
  | [] => []
  | item :: rest => shape item :: shapeOfItems rest

def shapeOfEntries : List (String × Value) → List (String × Value)
  | [] => []
  | (key, value) :: rest => (key, shape value) :: shapeOfEntries rest

end

mutual

/-- Mapping over a value changes nothing but its strings. -/
theorem shape_of_mapStringsM {value result : Value} (h : value.mapStringsM f = .ok result) :
    result.shape = value.shape := by
  cases value with
  | string text =>
    rw [mapStringsM] at h
    obtain ⟨t, -, rfl⟩ := map_eq_ok.1 h
    rw [shape, shape]
  | sequence items =>
    rw [mapStringsM] at h
    obtain ⟨results, hresults, rfl⟩ := map_eq_ok.1 h
    rw [shape, shape, shapeOfItems_of_mapItemsM hresults]
  | mapping entries =>
    rw [mapStringsM] at h
    obtain ⟨results, hresults, rfl⟩ := map_eq_ok.1 h
    rw [shape, shape, shapeOfEntries_of_mapEntriesM hresults]
  | bool value => rw [mapStringsM] at h; cases h; rfl
  | integer n => rw [mapStringsM] at h; cases h; rfl
  | float x => rw [mapStringsM] at h; cases h; rfl

theorem shapeOfItems_of_mapItemsM {items results : List Value}
    (h : mapItemsM f items = .ok results) : shapeOfItems results = shapeOfItems items := by
  cases items with
  | nil => rw [mapItemsM] at h; cases h; rfl
  | cons item rest =>
    rw [mapItemsM] at h
    obtain ⟨value, hvalue, h⟩ := bind_eq_ok.1 h
    obtain ⟨values, hvalues, h⟩ := bind_eq_ok.1 h
    cases h
    rw [shapeOfItems, shapeOfItems, shape_of_mapStringsM hvalue,
      shapeOfItems_of_mapItemsM hvalues]

theorem shapeOfEntries_of_mapEntriesM {entries results : List (String × Value)}
    (h : mapEntriesM f entries = .ok results) :
    shapeOfEntries results = shapeOfEntries entries := by
  cases entries with
  | nil => rw [mapEntriesM] at h; cases h; rfl
  | cons entry rest =>
    obtain ⟨key, value⟩ := entry
    rw [mapEntriesM] at h
    obtain ⟨mapped, hmapped, h⟩ := bind_eq_ok.1 h
    obtain ⟨values, hvalues, h⟩ := bind_eq_ok.1 h
    cases h
    rw [shapeOfEntries, shapeOfEntries, shape_of_mapStringsM hmapped,
      shapeOfEntries_of_mapEntriesM hvalues]

end

end Reactor.Value

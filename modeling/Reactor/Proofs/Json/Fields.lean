import Mathlib.Data.List.Forall2
import Reactor.Json.Printer
import Reactor.Proofs.SortedMap

/-!
# Fields of objects

What a JSON document says does not depend on the order in which its objects are written. Putting
their entries in key order changes the text of a document, but not what it says.
-/

namespace Reactor.Json

/-- The value under a key of an object. Of several entries with this key the last one counts. -/
def field? (key : String) : Json → Option Json
  | object entries => entries.reverse.lookup key
  | _ => none

/-- Whether two documents say the same: they have the same shape, and their objects have the same
fields, in whatever order. -/
inductive Same : Json → Json → Prop
  | refl (document : Json) : Same document document
  | array {items items' : List Json} (h : List.Forall₂ Same items items') :
    Same (array items) (array items')
  | object {entries entries' : List (String × Json)}
    (h : ∀ key, Option.Rel Same (field? key (object entries)) (field? key (object entries'))) :
    Same (object entries) (object entries')

theorem sortItems_eq_map (items : List Json) : sortItems items = items.map sortKeys := by
  induction items with
  | nil => rw [sortItems, List.map_nil]
  | cons item rest ih => rw [sortItems, ih, List.map_cons]

theorem sortEntries_eq_map (entries : List (String × Json)) :
    sortEntries entries = entries.map fun entry ↦ (entry.1, sortKeys entry.2) := by
  induction entries with
  | nil => rfl
  | cons entry rest ih => rw [sortEntries, ih, List.map_cons]

/-- The fields of an object in key order are the fields of the object. -/
theorem field?_sortKeys (key : String) (document : Json) :
    field? key document.sortKeys = (field? key document).map sortKeys := by
  cases document with
  | object entries =>
    have hsorted := (SortedMap.ofList (sortEntries entries)).increasing
    calc
      field? key (sortKeys (object entries)) =
          (SortedMap.ofList (SortedMap.ofList (sortEntries entries)).entries).get? key := by
        rw [sortKeys, field?, SortedMap.get?_ofList]
      _ = (SortedMap.ofList (sortEntries entries)).get? key := by
        rw [SortedMap.get?, SortedMap.entries_ofList hsorted, SortedMap.get?]
      _ = (entries.reverse.map fun entry ↦ (entry.1, sortKeys entry.2)).lookup key := by
        rw [SortedMap.get?_ofList, sortEntries_eq_map, List.map_reverse]
      _ = (field? key (object entries)).map sortKeys := SortedMap.lookup_map _ _ key
  | _ => simp [sortKeys, field?]

mutual

/-- Putting objects in key order changes nothing that a document says. -/
theorem same_sortKeys : (document : Json) → Same document.sortKeys document
  | .array items => by
    rw [sortKeys]
    exact .array (same_sortItems items)
  | .object entries => by
    have hvalues := same_sortEntries entries
    rw [sortKeys]
    apply Same.object
    intro key
    rw [← sortKeys, field?_sortKeys]
    cases hvalue : field? key (object entries) with
    | none => exact .none
    | some value =>
      obtain ⟨before, after, hsplit, -⟩ := List.lookup_eq_some_iff.1 hvalue
      have hentry : (key, value) ∈ entries := by
        rw [← List.mem_reverse, hsplit]
        exact List.mem_append_right before List.mem_cons_self
      exact .some (hvalues (key, value) hentry)
  | .null => .refl _
  | .bool _ => .refl _
  | .number _ => .refl _
  | .string _ => .refl _

theorem same_sortItems : (items : List Json) → List.Forall₂ Same (sortItems items) items
  | [] => .nil
  | item :: rest => .cons (same_sortKeys item) (same_sortItems rest)

theorem same_sortEntries :
    (entries : List (String × Json)) → ∀ entry ∈ entries, Same entry.2.sortKeys entry.2
  | [] => fun _ hentry ↦ absurd hentry List.not_mem_nil
  | (key, value) :: rest => by
    have hvalue := same_sortKeys value
    have hrest := same_sortEntries rest
    intro entry hentry
    rcases List.mem_cons.1 hentry with rfl | hentry
    · exact hvalue
    · exact hrest entry hentry

end

end Reactor.Json

import Reactor.Format.Standard
import Reactor.Proofs.Json.Fields
import Reactor.Proofs.Outcome
import Reactor.Proofs.Value.ToJson
import Reactor.Value.Document

/-!
# Values in key order

The mappings of a value list each key once, in key order. A value of this form is read back from the
document that it is written as, by either of the two readers of documents. So is a value that is put
together from parts that are read back, in whatever order the document lists its fields.
-/

namespace Reactor

namespace Value

/-- Whether every mapping in a value lists its keys once and in order. -/
inductive IsOrdered : Value → Prop
  | bool (value : Bool) : IsOrdered (.bool value)
  | integer (n : Int64) : IsOrdered (.integer n)
  | float (x : Float) : IsOrdered (.float x)
  | string (text : String) : IsOrdered (.string text)
  | sequence {items : List Value} (h : ∀ item ∈ items, IsOrdered item) :
    IsOrdered (.sequence items)
  | mapping {entries : List (String × Value)} (hkeys : entries.Pairwise fun a b ↦ a.1 < b.1)
    (h : ∀ entry ∈ entries, IsOrdered entry.2) : IsOrdered (.mapping entries)

theorem isOrdered_mapping_ofList {entries : List (String × Value)}
    (h : ∀ entry ∈ entries, entry.2.IsOrdered) :
    (mapping (SortedMap.ofList entries).entries).IsOrdered :=
  .mapping (SortedMap.ofList entries).increasing fun entry hentry ↦
    h entry (SortedMap.mem_ofList hentry)

/-! ## Documents of values -/

theorem fitsSigned_toInt (n : Int64) : fitsSigned n.toInt = true := by
  have hlow := Int64.le_toInt n
  have hhigh := Int64.toInt_lt n
  simp only [fitsSigned, Bool.and_eq_true, decide_eq_true_eq]
  omega

mutual

/-- The reader of documents without repeated keys returns the value that was written. -/
theorem ofOrdered_toJson (pointer : Pointer) : (value : Value) →
    ofOrdered pointer value.toJson = .ok value
  | .bool _ => rfl
  | .integer n => by
    rw [toJson, ofOrdered, ofNumber, if_pos (fitsSigned_toInt n), Int64.ofInt_toInt]
  | .float _ => rfl
  | .string _ => rfl
  | .sequence items => by
    rw [toJson, ofOrdered, itemsOfOrdered_itemsToJson pointer 0 items]
    rfl
  | .mapping entries => by
    rw [toJson, ofOrdered, entriesOfOrdered_entriesToJson pointer entries]
    rfl

theorem itemsOfOrdered_itemsToJson (pointer : Pointer) (index : Nat) : (items : List Value) →
    itemsOfOrdered pointer index (itemsToJson items) = .ok items
  | [] => rfl
  | item :: rest => by
    rw [itemsToJson, itemsOfOrdered, ofOrdered_toJson (pointer.item index) item,
      itemsOfOrdered_itemsToJson pointer (index + 1) rest]
    rfl

theorem entriesOfOrdered_entriesToJson (pointer : Pointer) : (entries : List (String × Value)) →
    entriesOfOrdered pointer (entriesToJson entries) = .ok entries
  | [] => rfl
  | (key, value) :: rest => by
    rw [entriesToJson, entriesOfOrdered, ofOrdered_toJson (pointer.entry key) value,
      entriesOfOrdered_entriesToJson pointer rest]
    rfl

end

end Value

/-! ## Documents in any order -/

namespace Json

open Value

/-- Whether a document denotes a value for both readers of documents. -/
structure Denotes (document : Json) (value : Value) : Prop where
  sorted : document.sortKeys = value.toJson
  lenient : ofJsonLenient? document = some value

theorem Denotes.ofJson {document : Json} {value : Value} (h : Denotes document value) :
    Value.ofJson document = .ok value := by
  rw [Value.ofJson, h.sorted, ofOrdered_toJson]

theorem denotes_string (text : String) : Denotes (.string text) (.string text) :=
  ⟨rfl, rfl⟩

theorem denotes_bool (value : Bool) : Denotes (.bool value) (.bool value) :=
  ⟨rfl, rfl⟩

theorem denotes_integer (n : Int64) : Denotes (.number (.integer n.toInt)) (.integer n) := by
  refine ⟨rfl, ?_⟩
  rw [ofJsonLenient?, ofNumberLenient, if_pos (fitsSigned_toInt n), Int64.ofInt_toInt]

theorem itemsLenient?_eq_some {items : List Json} {values : List Value}
    (h : List.Forall₂ (fun item value ↦ ofJsonLenient? item = some value) items values) :
    itemsLenient? items = some values := by
  induction h with
  | nil => rfl
  | cons hhead _ ih =>
    rw [itemsLenient?, hhead, ih]
    rfl

theorem entriesLenient?_eq_some {entries : List (String × Json)} {fields : List (String × Value)}
    (h : List.Forall₂ (fun entry field ↦ entry.1 = field.1 ∧
      ofJsonLenient? entry.2 = some field.2) entries fields) :
    entriesLenient? entries = some fields := by
  induction h with
  | nil => rfl
  | @cons entry field _ _ hhead _ ih =>
    obtain ⟨key, document⟩ := entry
    obtain ⟨rfl, hvalue⟩ := hhead
    rw [entriesLenient?, hvalue, ih]
    rfl

theorem denotes_array {items : List Json} {values : List Value}
    (h : List.Forall₂ Denotes items values) : Denotes (.array items) (.sequence values) := by
  constructor
  · have hsorted : items.map sortKeys = values.map toJson :=
      map_eq_of_forall₂ h fun _ _ hdenotes ↦ hdenotes.sorted
    rw [sortKeys, sortItems_eq_map, hsorted, toJson, itemsToJson_eq_map]
  · rw [ofJsonLenient?, itemsLenient?_eq_some (h.imp fun _ _ hdenotes ↦ hdenotes.lenient)]
    rfl

/-- Whether fields of an object denote fields of a mapping, one for one. -/
def DenotesFields (entries : List (String × Json)) (fields : List (String × Value)) : Prop :=
  List.Forall₂ (fun entry field ↦ entry.1 = field.1 ∧ Denotes entry.2 field.2) entries fields

theorem denotes_object {entries : List (String × Json)} {fields : List (String × Value)}
    (h : DenotesFields entries fields) :
    Denotes (.object entries) (.mapping (SortedMap.ofList fields).entries) := by
  constructor
  · have hsorted : (entries.map fun entry ↦ (entry.1, entry.2.sortKeys)) =
        fields.map fun field ↦ (field.1, field.2.toJson) :=
      map_eq_of_forall₂ h fun _ _ hfield ↦ Prod.ext hfield.1 hfield.2.sorted
    rw [sortKeys, sortEntries_eq_map, hsorted, SortedMap.ofList_map, toJson, entriesToJson_eq_map]
    rfl
  · have hlenient := entriesLenient?_eq_some (h.imp fun _ _ hfield ↦ ⟨hfield.1, hfield.2.lenient⟩)
    rw [ofJsonLenient?, hlenient]
    rfl

end Json

namespace Value

/-- An ordered value is denoted by the document that it is written as. -/
theorem IsOrdered.denotes {value : Value} (h : value.IsOrdered) :
    Json.Denotes value.toJson value := by
  induction h with
  | bool value => exact Json.denotes_bool value
  | integer n => exact Json.denotes_integer n
  | float x => exact ⟨rfl, rfl⟩
  | string text => exact Json.denotes_string text
  | sequence _ ih =>
    rw [toJson, itemsToJson_eq_map]
    exact Json.denotes_array (List.forall₂_map_left_iff.2 (List.forall₂_same.2 ih))
  | @mapping entries hkeys _ ih =>
    have hfields : Json.DenotesFields (entries.map fun entry ↦ (entry.1, entry.2.toJson)) entries :=
      List.forall₂_map_left_iff.2
        (List.forall₂_same.2 fun entry hentry ↦ ⟨rfl, ih entry hentry⟩)
    have hdenotes := Json.denotes_object hfields
    rw [SortedMap.entries_ofList hkeys] at hdenotes
    rw [toJson, entriesToJson_eq_map]
    exact hdenotes

/-! ## What the formats return -/

theorem forall₂_of_itemsOfOrdered {pointer : Pointer} {index : Nat} {items : List Json}
    {values : List Value} (h : itemsOfOrdered pointer index items = .ok values) :
    List.Forall₂ (fun item value ↦ ∃ pointer, ofOrdered pointer item = .ok value) items values := by
  induction items generalizing index values with
  | nil =>
    obtain rfl := Except.ok.inj h
    exact .nil
  | cons item rest ih =>
    simp only [itemsOfOrdered, bind_eq_ok, Except.ok.injEq] at h
    obtain ⟨value, hvalue, values, hvalues, rfl⟩ := h
    exact .cons ⟨_, hvalue⟩ (ih hvalues)

theorem forall₂_of_entriesOfOrdered {pointer : Pointer} {entries : List (String × Json)}
    {fields : List (String × Value)} (h : entriesOfOrdered pointer entries = .ok fields) :
    List.Forall₂ (fun entry field ↦ entry.1 = field.1 ∧
      ∃ pointer, ofOrdered pointer entry.2 = .ok field.2) entries fields := by
  induction entries generalizing fields with
  | nil =>
    obtain rfl := Except.ok.inj h
    exact .nil
  | cons entry rest ih =>
    obtain ⟨key, document⟩ := entry
    simp only [entriesOfOrdered, bind_eq_ok, Except.ok.injEq] at h
    obtain ⟨value, hvalue, fields, hfields, rfl⟩ := h
    exact .cons ⟨rfl, _, hvalue⟩ (ih hfields)

theorem isOrdered_of_ofNumber {pointer : Pointer} {n : Number} {value : Value}
    (h : ofNumber pointer n = .ok value) : value.IsOrdered := by
  cases n with
  | float x =>
    obtain rfl := Except.ok.inj h
    exact .float x
  | integer n =>
    rw [ofNumber] at h
    split at h
    · obtain rfl := Except.ok.inj h
      exact .integer _
    · cases h

mutual

/-- The value of a document whose objects were put in key order is ordered. -/
theorem isOrdered_of_ofOrdered : (document : Json) → ∀ {pointer : Pointer} {value : Value},
    ofOrdered pointer document.sortKeys = .ok value → value.IsOrdered
  | .null => nofun
  | .bool value => fun h ↦ by
    obtain rfl := Except.ok.inj h
    exact .bool value
  | .number n => fun h ↦ isOrdered_of_ofNumber h
  | .string text => fun h ↦ by
    obtain rfl := Except.ok.inj h
    exact .string text
  | .array items => fun h ↦ by
    have hitems := isOrdered_of_items items
    rw [Json.sortKeys, ofOrdered, Json.sortItems_eq_map] at h
    obtain ⟨values, hvalues, rfl⟩ := map_eq_ok.1 h
    have hrelated := forall₂_of_itemsOfOrdered hvalues
    refine .sequence fun value hvalue ↦ ?_
    obtain ⟨sorted, hsorted, pointer, hread⟩ := exists_of_forall₂ hrelated.flip hvalue
    obtain ⟨item, hitem, rfl⟩ := List.mem_map.1 hsorted
    exact hitems item hitem hread
  | .object entries => fun h ↦ by
    have hentries := isOrdered_of_entries entries
    rw [Json.sortKeys, ofOrdered, Json.sortEntries_eq_map] at h
    obtain ⟨fields, hfields, rfl⟩ := map_eq_ok.1 h
    have hrelated := forall₂_of_entriesOfOrdered hfields
    refine .mapping ?_ fun field hfield ↦ ?_
    · have hkeys := SortedMap.keys_eq_of_forall₂ (R := fun document value ↦
        ∃ pointer, ofOrdered pointer document = .ok value) hrelated
      rw [← List.pairwise_map, ← hkeys, List.pairwise_map]
      exact (SortedMap.ofList _).increasing
    · obtain ⟨sorted, hsorted, -, pointer, hread⟩ := exists_of_forall₂ hrelated.flip hfield
      obtain ⟨entry, hentry, rfl⟩ := List.mem_map.1 (SortedMap.mem_ofList hsorted)
      exact hentries entry hentry hread

theorem isOrdered_of_items : (items : List Json) → ∀ item ∈ items,
    ∀ {pointer : Pointer} {value : Value}, ofOrdered pointer item.sortKeys = .ok value →
      value.IsOrdered
  | [] => fun _ hitem ↦ absurd hitem List.not_mem_nil
  | first :: rest =>
    List.forall_mem_cons.2 ⟨isOrdered_of_ofOrdered first, isOrdered_of_items rest⟩

theorem isOrdered_of_entries : (entries : List (String × Json)) → ∀ entry ∈ entries,
    ∀ {pointer : Pointer} {value : Value}, ofOrdered pointer entry.2.sortKeys = .ok value →
      value.IsOrdered
  | [] => fun _ hentry ↦ absurd hentry List.not_mem_nil
  | (_, first) :: rest =>
    List.forall_mem_cons.2 ⟨isOrdered_of_ofOrdered first, isOrdered_of_entries rest⟩

end

theorem isOrdered_of_ofJson {document : Json} {value : Value} (h : ofJson document = .ok value) :
    value.IsOrdered :=
  isOrdered_of_ofOrdered document h

end Value

namespace Script.Data

open Value (IsOrdered)

mutual

/-- The value of a script's data is ordered. -/
theorem isOrdered_of_toValue : (data : Data) → ∀ {pointer : Value.Pointer} {value : Value},
    data.toValue pointer = .ok value → value.IsOrdered
  | .nil => nofun
  | .bool value => fun h ↦ by
    obtain rfl := Except.ok.inj h
    exact .bool value
  | .number n => fun h ↦ by
    cases n with
    | int n =>
      obtain rfl := Except.ok.inj h
      exact .integer n
    | _ =>
      obtain rfl := Except.ok.inj h
      exact .float _
  | .string bytes => fun h ↦ by
    obtain ⟨text, -, rfl⟩ := map_eq_ok.1 h
    exact .string text
  | .table border entries => fun h ↦ by
    have hitem := @isOrdered_of_itemValue entries
    have hentries := @isOrdered_of_entryValues entries
    rw [toValue] at h
    split at h
    · obtain ⟨items, hitems, rfl⟩ := map_eq_ok.1 h
      refine .sequence fun value hvalue ↦ ?_
      obtain ⟨index, -, hread⟩ := exists_of_forall₂ (mapM_eq_ok.1 hitems).flip hvalue
      exact hitem hread
    · obtain ⟨fields, hfields, rfl⟩ := map_eq_ok.1 h
      exact Value.isOrdered_mapping_ofList (hentries hfields)
  | .other _ => nofun

theorem isOrdered_of_itemValue : (entries : List (Key × Data)) →
    ∀ {pointer : Value.Pointer} {index : Nat} {value : Value},
      itemValue pointer index entries = .ok value → value.IsOrdered
  | [] => nofun
  | (key, data) :: rest => fun h ↦ by
    rw [itemValue] at h
    split at h
    · exact isOrdered_of_toValue data h
    · exact isOrdered_of_itemValue rest h

theorem isOrdered_of_entryValues : (entries : List (Key × Data)) →
    ∀ {pointer : Value.Pointer} {fields : List (String × Value)},
      entryValues pointer entries = .ok fields → ∀ field ∈ fields, field.2.IsOrdered
  | [] => fun h ↦ by
    obtain rfl := Except.ok.inj h
    exact List.forall_mem_nil _
  | (key, data) :: rest => fun h ↦ by
    simp only [entryValues, bind_eq_ok, Except.ok.injEq] at h
    obtain ⟨key, -, value, hvalue, fields, hfields, rfl⟩ := h
    exact List.forall_mem_cons.2
      ⟨isOrdered_of_toValue data hvalue, isOrdered_of_entryValues rest hfields⟩

end

end Script.Data

namespace Format

variable {fs : FileSystem} {path text : String} {value : Value}

theorem isOrdered_of_readJson (h : readJson text = .ok value) : value.IsOrdered := by
  unfold readJson at h
  split at h
  · cases h
  · exact Value.isOrdered_of_ofJson (mapError_eq_ok.1 h)

theorem isOrdered_of_readYaml (h : readYaml text = .ok value) : value.IsOrdered := by
  unfold readYaml at h
  split at h
  · cases h
  · exact Value.isOrdered_of_ofJson (mapError_eq_ok.1 h)

theorem isOrdered_of_readScript {directory : String}
    (h : readScript fs directory text = .ok value) : value.IsOrdered := by
  unfold readScript at h
  split at h
  · cases h
  · exact Script.Data.isOrdered_of_toValue _ (mapError_eq_ok.1 h)
  · cases h

/-- Every standard format returns ordered values. -/
theorem isOrdered_of_read {format : Format} (hformat : format ∈ standard)
    (h : format.read fs path text = .ok value) : value.IsOrdered := by
  simp only [standard, List.mem_cons, List.not_mem_nil, or_false] at hformat
  rcases hformat with rfl | rfl | rfl
  · simp only [lua] at h
    split at h
    · cases h
    · exact isOrdered_of_readScript h
  · exact isOrdered_of_readYaml h
  · exact isOrdered_of_readJson h

end Format

end Reactor

import Reactor.Proofs.Json.Unambiguous
import Reactor.Value.Basic

/-!
# Values as documents

The document that a value is written as determines the value, and all numbers in it are integers of
64 bits unless the value holds a floating-point number.
-/

namespace Reactor.Value

/-- The values without floating-point numbers. -/
inductive FloatFree : Value → Prop
  | bool (value : Bool) : FloatFree (.bool value)
  | integer (n : Int64) : FloatFree (.integer n)
  | string (text : String) : FloatFree (.string text)
  | sequence {items : List Value} (h : ∀ item ∈ items, FloatFree item) :
    FloatFree (.sequence items)
  | mapping {entries : List (String × Value)} (h : ∀ entry ∈ entries, FloatFree entry.2) :
    FloatFree (.mapping entries)

theorem itemsToJson_eq_map (items : List Value) : itemsToJson items = items.map toJson := by
  induction items with
  | nil => rfl
  | cons item rest ih => rw [itemsToJson, ih, List.map_cons]

theorem entriesToJson_eq_map (entries : List (String × Value)) :
    entriesToJson entries = entries.map fun entry ↦ (entry.1, entry.2.toJson) := by
  induction entries with
  | nil => rfl
  | cons entry rest ih => rw [entriesToJson, ih, List.map_cons]

theorem fits_toInt (n : Int64) : Json.Fits n.toInt := by
  have hlow := Int64.le_toInt n
  have hhigh := Int64.toInt_lt n
  constructor <;> omega

theorem FloatFree.isExact {value : Value} (h : value.FloatFree) : value.toJson.IsExact := by
  induction h with
  | bool value => exact .bool value
  | integer n => exact .integer (fits_toInt n)
  | string text => exact .string text
  | sequence _ ih =>
    rw [toJson, itemsToJson_eq_map]
    exact .array (List.forall_mem_map.2 ih)
  | mapping _ ih =>
    rw [toJson, entriesToJson_eq_map]
    exact .object (List.forall_mem_map.2 ih)

mutual

/-- Integers, booleans and strings are written differently, and so are sequences and mappings. -/
theorem eq_of_toJson_eq {value value' : Value} (h : value.toJson = value'.toJson) :
    value = value' := by
  cases value with
  | bool value => cases value' <;> simp_all [toJson]
  | integer n => cases value' <;> simp_all [toJson, Int64.toInt_inj]
  | float x => cases value' <;> simp_all [toJson]
  | string text => cases value' <;> simp_all [toJson]
  | sequence items =>
    cases value' with
    | sequence items' =>
      have hitems : itemsToJson items = itemsToJson items' := by
        simpa only [toJson, Json.array.injEq] using h
      rw [eq_of_itemsToJson_eq hitems]
    | _ => simp [toJson] at h
  | mapping entries =>
    cases value' with
    | mapping entries' =>
      have hentries : entriesToJson entries = entriesToJson entries' := by
        simpa only [toJson, Json.object.injEq] using h
      rw [eq_of_entriesToJson_eq hentries]
    | _ => simp [toJson] at h

theorem eq_of_itemsToJson_eq {items items' : List Value} (h : itemsToJson items = itemsToJson items') :
    items = items' := by
  cases items with
  | nil => cases items' <;> simp_all [itemsToJson]
  | cons item rest =>
    cases items' with
    | nil => simp [itemsToJson] at h
    | cons item' rest' =>
      rw [itemsToJson, itemsToJson, List.cons.injEq] at h
      rw [eq_of_toJson_eq h.1, eq_of_itemsToJson_eq h.2]

theorem eq_of_entriesToJson_eq {entries entries' : List (String × Value)}
    (h : entriesToJson entries = entriesToJson entries') : entries = entries' := by
  cases entries with
  | nil => cases entries' <;> simp_all [entriesToJson]
  | cons entry rest =>
    cases entries' with
    | nil => simp [entriesToJson] at h
    | cons entry' rest' =>
      obtain ⟨key, value⟩ := entry
      obtain ⟨key', value'⟩ := entry'
      rw [entriesToJson, entriesToJson, List.cons.injEq, Prod.mk.injEq] at h
      rw [h.1.1, eq_of_toJson_eq h.1.2, eq_of_entriesToJson_eq h.2]

end

theorem toJson_injective : Function.Injective toJson :=
  fun _ _ ↦ eq_of_toJson_eq

end Reactor.Value

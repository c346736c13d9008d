import Reactor.Proofs.Script.Tables
import Reactor.Proofs.Value.Pointers

/-!
# The part for which data is rejected

Data is converted part by part, and conversion stops at the first part that cannot be converted: at
a value of another type, at a string that is not UTF-8, or at a table with a key of another kind
once the entries before this key are converted. The pointer that is reported is the one along the
steps to this part.
-/

namespace Reactor.Script

open Text (Utf8.bytesOf Utf8.decode)
open Value (Pointer Rejection)

/-- Whether a key cannot be the key of a mapping, and why. -/
inductive Key.IsRefused : Key → Unsupported → Prop
  | string {bytes : List UInt8} {fault : Text.Utf8Fault} (h : Utf8.decode bytes = .error fault) :
    IsRefused (.string bytes) (.undecodable fault)
  | integer (n : Int64) : IsRefused (.integer n) (.tableKey "integer")
  | other (typeName : String) : IsRefused (.other typeName) (.tableKey typeName)

namespace Data

variable {pointer : Pointer} {rejection : Rejection} {border index : Nat}
  {entries : List (Key × Data)} {data : Data} {steps : List Step} {reason : Unsupported}

/-- Whether conversion of data stops at the part that steps lead to, and why it does. A table with
as many entries as its border says is taken for a sequence, and any other table for a mapping. -/
inductive StopsAt : Data → List Step → Unsupported → Prop
  | nil : StopsAt .nil [] .nilValue
  | other (typeName : String) : StopsAt (.other typeName) [] (.otherType typeName)
  | string {bytes : List UInt8} {fault : Text.Utf8Fault} (h : Utf8.decode bytes = .error fault) :
    StopsAt (.string bytes) [] (.undecodable fault)
  /-- The items of a sequence are converted in the order of their indices. -/
  | item {border index : Nat} {entries : List (Key × Data)} {steps : List Step}
    {reason : Unsupported} (hlength : 0 < border ∧ entries.length = border)
    (hindex : index < border)
    (hbefore : ∀ earlier < index, ∃ value, Converts (itemAt (earlier + 1) entries) value)
    (h : StopsAt (itemAt (index + 1) entries) steps reason) :
    StopsAt (.table border entries) (.item (index + 1) :: steps) reason
  /-- A table is rejected for a key once the entries before it are converted. -/
  | key {border : Nat} {entries before after : List (Key × Data)} {key : Key} {data : Data}
    {reason : Unsupported} (hlength : ¬(0 < border ∧ entries.length = border))
    (hentries : entries = before ++ (key, data) :: after)
    (hbefore : ∀ entry ∈ before, ∃ field, ConvertsField entry field) (h : key.IsRefused reason) :
    StopsAt (.table border entries) [] reason
  | field {border : Nat} {entries before after : List (Key × Data)} {name : String} {data : Data}
    {steps : List Step} {reason : Unsupported} (hlength : ¬(0 < border ∧ entries.length = border))
    (hentries : entries = before ++ (.string (Utf8.bytesOf name), data) :: after)
    (hbefore : ∀ entry ∈ before, ∃ field, ConvertsField entry field)
    (h : StopsAt data steps reason) :
    StopsAt (.table border entries) (.field name :: steps) reason

/-! ## One level -/

theorem textAt_eq_error_iff {bytes : List UInt8} : textAt pointer bytes = .error rejection ↔
    ∃ fault, Utf8.decode bytes = .error fault ∧ rejection = ⟨pointer, .undecodable fault⟩ := by
  rw [textAt, mapError_eq_error]
  simp only [eq_comm]

theorem keyAt_eq_error_iff {key : Key} : keyAt pointer key = .error rejection ↔
    key.IsRefused rejection.reason ∧ rejection.pointer = pointer := by
  obtain ⟨place, reason⟩ := rejection
  constructor
  · intro h
    cases key with
    | string bytes =>
      obtain ⟨fault, hfault, heq⟩ := textAt_eq_error_iff.1 h
      cases heq
      exact ⟨.string hfault, rfl⟩
    | integer n =>
      cases h
      exact ⟨.integer n, rfl⟩
    | other typeName =>
      cases h
      exact ⟨.other typeName, rfl⟩
  · rintro ⟨hkey, rfl⟩
    cases hkey with
    | string hfault => exact textAt_eq_error_iff.2 ⟨_, hfault, rfl⟩
    | integer n => rfl
    | other typeName => rfl

theorem fieldValue_eq_error_iff {entry : Key × Data} :
    fieldValue pointer entry = .error rejection ↔
      (entry.1.IsRefused rejection.reason ∧ rejection.pointer = pointer) ∨
        ∃ name, entry.1 = .string (Utf8.bytesOf name) ∧
          entry.2.toValue (pointer.entry name) = .error rejection := by
  simp only [fieldValue, bind_eq_error, keyAt_eq_error_iff, keyAt_eq_ok_iff, reduceCtorEq,
    and_false, exists_false, or_false]

/-- A table that is taken for a sequence is rejected for the first item that is. -/
theorem toValue_eq_error_iff_of_length (hlength : 0 < border ∧ entries.length = border) :
    (table border entries).toValue pointer = .error rejection ↔ ∃ index < border,
      (∀ earlier < index, ∃ value, Converts (itemAt (earlier + 1) entries) value) ∧
        (itemAt (index + 1) entries).toValue (pointer.item (index + 1)) = .error rejection := by
  rw [toValue, if_pos hlength, map_eq_error]
  simp only [itemValue_eq_toValue, mapM_range_eq_error, ← converts_iff]

/-- A table that is taken for a mapping is rejected for the first entry that makes no field. -/
theorem toValue_eq_error_iff_of_not_length (hlength : ¬(0 < border ∧ entries.length = border)) :
    (table border entries).toValue pointer = .error rejection ↔ ∃ before entry after,
      entries = before ++ entry :: after ∧
        (∀ other ∈ before, ∃ field, ConvertsField other field) ∧
        fieldValue pointer entry = .error rejection := by
  rw [toValue, if_neg hlength, map_eq_error, entryValues_eq_mapM, mapM_eq_error]
  simp only [fieldValue_eq_ok_iff]

theorem sizeOf_lt_of_mem {key : Key} (h : (key, data) ∈ entries) :
    sizeOf data < sizeOf (table border entries) := by
  have hlt := List.sizeOf_lt_of_mem h
  simp only [table.sizeOf_spec, Prod.mk.sizeOf_spec] at hlt ⊢
  omega

theorem sizeOf_itemAt_lt (index border : Nat) (entries : List (Key × Data)) :
    sizeOf (itemAt index entries) < sizeOf (table border entries) := by
  by_cases hnil : itemAt index entries = nil
  · have hpos : 0 < sizeOf entries := by cases entries <;> simp
    rw [hnil]
    simp only [nil.sizeOf_spec, table.sizeOf_spec]
    omega
  · exact sizeOf_lt_of_mem (mem_of_itemAt_ne_nil hnil)

/-! ## The whole data -/

/-- Rejected data has a part at which conversion stops, and the pointer is the one along the steps
to this part. -/
theorem exists_stopsAt (data : Data) {pointer : Pointer} {rejection : Rejection}
    (h : data.toValue pointer = .error rejection) :
    ∃ steps, StopsAt data steps rejection.reason ∧ rejection.pointer = pointer.along steps := by
  cases data with
  | nil =>
    obtain rfl := Except.error.inj h
    exact ⟨[], .nil, rfl⟩
  | bool value => cases h
  | number n => cases n <;> cases h
  | string bytes =>
    rw [toValue, map_eq_error] at h
    obtain ⟨fault, hfault, rfl⟩ := textAt_eq_error_iff.1 h
    exact ⟨[], .string hfault, rfl⟩
  | other typeName =>
    obtain rfl := Except.error.inj h
    exact ⟨[], .other typeName, rfl⟩
  | table border entries =>
    by_cases hlength : 0 < border ∧ entries.length = border
    · obtain ⟨index, hindex, hbefore, hitem⟩ := (toValue_eq_error_iff_of_length hlength).1 h
      have hsmaller := sizeOf_itemAt_lt (index + 1) border entries
      obtain ⟨steps, hstops, hpointer⟩ := exists_stopsAt _ hitem
      exact ⟨.item (index + 1) :: steps, .item hlength hindex hbefore hstops, hpointer⟩
    · obtain ⟨before, ⟨key, data⟩, after, hentries, hbefore, hentry⟩ :=
        (toValue_eq_error_iff_of_not_length hlength).1 h
      rcases fieldValue_eq_error_iff.1 hentry with ⟨hkey, hpointer⟩ | ⟨name, rfl, hdata⟩
      · exact ⟨[], .key hlength hentries hbefore hkey, hpointer⟩
      · have hsmaller : sizeOf data < sizeOf (table border entries) :=
          sizeOf_lt_of_mem (hentries ▸ List.mem_append_cons_self)
        obtain ⟨steps, hstops, hpointer⟩ := exists_stopsAt data hdata
        exact ⟨.field name :: steps, .field hlength hentries hbefore hstops, hpointer⟩
termination_by sizeOf data

/-- Data is rejected for the part at which conversion stops. -/
theorem StopsAt.toValue_eq (h : StopsAt data steps reason) (pointer : Pointer) :
    data.toValue pointer = .error ⟨pointer.along steps, reason⟩ := by
  induction h generalizing pointer with
  | nil => rfl
  | other typeName => rfl
  | string hfault =>
    rw [toValue, map_eq_error]
    exact textAt_eq_error_iff.2 ⟨_, hfault, rfl⟩
  | item hlength hindex hbefore _ ih =>
    exact (toValue_eq_error_iff_of_length hlength).2 ⟨_, hindex, hbefore, ih _⟩
  | key hlength hentries hbefore hkey =>
    exact (toValue_eq_error_iff_of_not_length hlength).2
      ⟨_, _, _, hentries, hbefore, fieldValue_eq_error_iff.2 (.inl ⟨hkey, rfl⟩)⟩
  | field hlength hentries hbefore _ ih =>
    exact (toValue_eq_error_iff_of_not_length hlength).2
      ⟨_, _, _, hentries, hbefore, fieldValue_eq_error_iff.2 (.inr ⟨_, rfl, ih _⟩)⟩

end Data

end Reactor.Script

import Reactor.Proofs.Json.ReadBack
import Reactor.Proofs.Value.FirstRefusal

/-!
# Two readers of documents

A stored value is read by trying one variant of values after another, where a descriptor is read by
looking at what the document is. On a document without repeated keys, the two readers return the
same value whenever a descriptor is read. They differ on integers that fit 64 bits only without a
sign: a descriptor is refused because of them, a stored value holds them as floats.
-/

namespace Reactor

/-- Whether no key of a document, if it is an object, is repeated. -/
def Json.HasDistinctKeys : Json → Prop
  | object entries => (entries.map Prod.fst).Nodup
  | _ => True

namespace Value

open Format (OnlyUnsigned onlyUnsigned_iff)

/-! ## One variant after another -/

def tryBool : Json → Option Value
  | .bool value => some (bool value)
  | _ => none

def tryInteger : Json → Option Value
  | .number (.integer n) => if fitsSigned n then some (integer (Int64.ofInt n)) else none
  | _ => none

def tryFloat : Json → Option Value
  | .number (.float x) => some (float x)
  | .number (.integer n) =>
    some (float (if 0 ≤ n then n.toNat.toUInt64.toFloat else (Int64.ofInt n).toFloat))
  | _ => none

def tryString : Json → Option Value
  | .string text => some (string text)
  | _ => none

def trySequence (read : Json → Option Value) : Json → Option Value
  | .array items => sequence <$> items.mapM read
  | _ => none

def tryMapping (read : Json → Option Value) : Json → Option Value
  | .object entries => (fun fields ↦ mapping (SortedMap.ofList fields).entries) <$>
      entries.mapM fun entry ↦ (entry.1, ·) <$> read entry.2
  | _ => none

def variants (read : Json → Option Value) : List (Json → Option Value) :=
  [tryBool, tryInteger, tryFloat, tryString, trySequence read, tryMapping read]

variable {document : Json} {value : Value} {items : List Json} {entries : List (String × Json)}

theorem itemsLenient?_eq_mapM (items : List Json) :
    itemsLenient? items = items.mapM ofJsonLenient? := by
  induction items with
  | nil => rfl
  | cons item rest ih =>
    rw [itemsLenient?, ih, List.mapM_cons]
    rfl

theorem entriesLenient?_eq_mapM (entries : List (String × Json)) :
    entriesLenient? entries = entries.mapM fun entry ↦ (entry.1, ·) <$> ofJsonLenient? entry.2 := by
  induction entries with
  | nil => rfl
  | cons entry rest ih =>
    rw [entriesLenient?, ih, List.mapM_cons]
    cases ofJsonLenient? entry.2 <;> rfl

theorem findSome?_variants_array (read : Json → Option Value) (items : List Json) :
    (variants read).findSome? (· (.array items)) = trySequence read (.array items) := by
  have hskip : (variants read).findSome? (· (.array items)) =
      [trySequence read, tryMapping read].findSome? (· (.array items)) := rfl
  rw [hskip, List.findSome?_cons]
  cases trySequence read (.array items) <;> rfl

theorem findSome?_variants_object (read : Json → Option Value) (entries : List (String × Json)) :
    (variants read).findSome? (· (.object entries)) = tryMapping read (.object entries) := by
  have hskip : (variants read).findSome? (· (.object entries)) =
      [tryMapping read].findSome? (· (.object entries)) := rfl
  rw [hskip, List.findSome?_cons]
  cases tryMapping read (.object entries) <;> rfl

/-- A stored value is the first variant that fits. -/
theorem ofJsonLenient?_eq_findSome? (h : document.IsFitting) :
    ofJsonLenient? document = (variants ofJsonLenient?).findSome? (· document) := by
  cases document with
  | null => rfl
  | bool value => rfl
  | string text => rfl
  | number n =>
    cases n with
    | float x => rfl
    | integer n =>
      have hskip : (variants ofJsonLenient?).findSome? (· (.number (.integer n))) =
          [tryInteger, tryFloat].findSome? (· (.number (.integer n))) := rfl
      rw [hskip, ofJsonLenient?, ofNumberLenient, List.findSome?_cons, tryInteger]
      cases hfits : fitsSigned n with
      | true => rfl
      | false =>
        have hlarge : OnlyUnsigned n := onlyUnsigned_iff.2 ⟨h, hfits⟩
        have hnonneg : 0 ≤ n := by
          have hlow := hlarge.1
          omega
        simp [tryFloat, hnonneg]
  | array items =>
    rw [findSome?_variants_array, ofJsonLenient?, itemsLenient?_eq_mapM, trySequence]
  | object entries =>
    rw [findSome?_variants_object, ofJsonLenient?, entriesLenient?_eq_mapM, tryMapping]

/-! ## What is read leniently for a part -/

theorem forall₂_of_itemsLenient? {values : List Value} (h : itemsLenient? items = some values) :
    List.Forall₂ (fun item value ↦ ofJsonLenient? item = some value) items values := by
  induction items generalizing values with
  | nil =>
    obtain rfl := Option.some.inj h
    exact .nil
  | cons item rest ih =>
    obtain ⟨value, hvalue, h⟩ := Option.bind_eq_some_iff.1 h
    obtain ⟨values, hvalues, heq⟩ := Option.bind_eq_some_iff.1 h
    obtain rfl := Option.some.inj heq
    exact .cons hvalue (ih hvalues)

theorem forall₂_of_entriesLenient? {fields : List (String × Value)}
    (h : entriesLenient? entries = some fields) :
    List.Forall₂ (fun entry field ↦ entry.1 = field.1 ∧
      ofJsonLenient? entry.2 = some field.2) entries fields := by
  induction entries generalizing fields with
  | nil =>
    obtain rfl := Option.some.inj h
    exact .nil
  | cons entry rest ih =>
    obtain ⟨value, hvalue, h⟩ := Option.bind_eq_some_iff.1 h
    obtain ⟨fields, hfields, heq⟩ := Option.bind_eq_some_iff.1 h
    obtain rfl := Option.some.inj heq
    exact .cons ⟨rfl, hvalue⟩ (ih hfields)

theorem readsParts_ofJsonLenient? : ReadsParts (fun n value ↦ value = ofNumberLenient n)
    fun document value ↦ ofJsonLenient? document = some value where
  alike := by
    intro document value h
    cases document with
    | null => cases h
    | bool b =>
      obtain rfl := Option.some.inj h
      exact .bool b
    | number n => exact .number (Option.some.inj h).symm
    | string text =>
      obtain rfl := Option.some.inj h
      exact .string text
    | array items =>
      obtain ⟨values, -, rfl⟩ := Option.map_eq_some_iff.1 h
      exact .array items values
    | object entries =>
      obtain ⟨fields, -, rfl⟩ := Option.map_eq_some_iff.1 h
      exact .object entries (SortedMap.ofList fields)
  noParts := by
    rintro n _ rfl step
    unfold ofNumberLenient
    split
    · cases step <;> rfl
    · split <;> cases step <;> rfl
  items h := by
    obtain ⟨values, hvalues, heq⟩ := Option.map_eq_some_iff.1 h
    exact sequence.inj heq ▸ forall₂_of_itemsLenient? hvalues
  fields h key := by
    obtain ⟨fields, hfields, heq⟩ := Option.map_eq_some_iff.1 h
    rw [← SortedMap.eq_of_entries_eq (mapping.inj heq), Json.field?, SortedMap.get?_ofList]
    exact SortedMap.rel_lookup_of_forall₂
      (List.forall₂_reverse_iff.2 (forall₂_of_entriesLenient? hfields)) key

/-! ## The structure of stored values -/

/-- Whether a value is the number of a document, or a float for an integer that fits 64 bits only
without a sign. -/
inductive IsWidened : Number → Value → Prop
  | number {n : Number} {value : Value} (h : IsNumber n value) : IsWidened n value
  | large {n : Int} (h : OnlyUnsigned n) :
    IsWidened (.integer n) (.float n.toNat.toUInt64.toFloat)

theorem isWidened_ofNumberLenient {n : Number} (h : (Json.number n).IsFitting) :
    IsWidened n (ofNumberLenient n) := by
  cases n with
  | float x => exact .number (.float x)
  | integer n =>
    rw [ofNumberLenient]
    split
    case isTrue hsigned => exact .number (.integer (toInt_ofInt hsigned))
    case isFalse hsigned => exact .large (onlyUnsigned_iff.2 ⟨h, by simpa using hsigned⟩)

theorem IsAlike.isWidened (hfits : document.IsFitting)
    (h : IsAlike (fun n value ↦ value = ofNumberLenient n) document value) :
    IsAlike IsWidened document value := by
  cases h with
  | bool b => exact .bool b
  | string text => exact .string text
  | array items values => exact .array items values
  | object entries fields => exact .object entries fields
  | number hn => exact .number (hn ▸ isWidened_ofNumberLenient hfits)

/-- What is read leniently has the structure of the document. Only its largest integers are
widened. -/
theorem hasStructureOf_of_ofJsonLenient? (hfits : document.AllParts Json.IsFitting)
    (h : ofJsonLenient? document = some value) : value.HasStructureOf IsWidened document :=
  fun steps ↦ rel_imp (fun part hpart _ halike ↦ halike.isWidened (hfits steps part hpart))
    (readsParts_ofJsonLenient?.hasStructureOf h steps)

/-- Nothing is read for a document with a null. -/
theorem ofJsonLenient?_eq_none {steps : List Step} (h : document.at? steps = some .null) :
    ofJsonLenient? document = none := by
  cases hread : ofJsonLenient? document with
  | none => rfl
  | some value =>
    have hrel := readsParts_ofJsonLenient?.rel_at? hread steps
    rw [h] at hrel
    generalize value.at? steps = part at hrel
    rcases hrel with ⟨⟨⟩⟩

/-- Something is read for every document without nulls, if no key is repeated. Each entry of an
object is then a part of it. -/
theorem exists_ofJsonLenient? (document : Json) (hkeys : document.AllParts Json.HasDistinctKeys)
    (hnull : document.AllParts (· ≠ .null)) : ∃ value, ofJsonLenient? document = some value := by
  have hpart {step : Step} {part : Json} (hstep : document.part? step = some part) :
      ∃ value, ofJsonLenient? part = some value := by
    have hsmaller := Json.sizeOf_lt_of_mem_parts (Json.mem_parts_iff.2 hstep)
    exact exists_ofJsonLenient? part (hkeys.of_part hstep) (hnull.of_part hstep)
  cases document with
  | null => exact absurd rfl (hnull [] .null rfl)
  | bool b => exact ⟨_, rfl⟩
  | number n => exact ⟨_, rfl⟩
  | string text => exact ⟨_, rfl⟩
  | array items =>
    obtain ⟨values, hvalues⟩ := exists_forall₂_iff.2 fun item hitem ↦ by
      obtain ⟨index, hindex⟩ := List.mem_iff_getElem?.1 hitem
      have hstep : (Json.array items).part? (.item index) = some item := hindex
      exact hpart hstep
    exact ⟨.sequence values, by rw [ofJsonLenient?, Json.itemsLenient?_eq_some hvalues]; rfl⟩
  | object entries =>
    have hdistinct : (entries.map Prod.fst).Nodup := hkeys [] _ rfl
    obtain ⟨fields, hfields⟩ := exists_forall₂_iff.2 fun entry hentry ↦ by
      have hmem := (SortedMap.perm_entries_ofList hdistinct).mem_iff.2 hentry
      have hstep : (Json.object entries).part? (.field entry.1) = some entry.2 := by
        rw [Json.part?, Json.field?, ← SortedMap.get?_ofList]
        exact SortedMap.mem_entries_iff.1 hmem
      obtain ⟨value, hvalue⟩ := hpart hstep
      exact (⟨(entry.1, value), rfl, hvalue⟩ : ∃ field : String × Value, entry.1 = field.1 ∧
        ofJsonLenient? entry.2 = some field.2)
    exact ⟨.mapping (SortedMap.ofList fields).entries, by
      rw [ofJsonLenient?, Json.entriesLenient?_eq_some hfields]; rfl⟩
termination_by sizeOf document

/-- A number that is kept as it is is the same for both readers. -/
theorem eq_of_isNumber {n : Number} {value value' : Value} (h : IsNumber n value)
    (h' : IsWidened n value') : value = value' := by
  cases h with
  | float x =>
    cases h' with
    | number h' =>
      cases h'
      rfl
  | @integer n k hk =>
    cases h' with
    | number h' =>
      cases h' with
      | integer hk' => rw [Int64.toInt_inj.1 (hk.trans hk'.symm)]
    | large hlarge =>
      have hunsigned := (onlyUnsigned_iff.1 hlarge).2
      rw [← hk, fitsSigned_toInt] at hunsigned
      cases hunsigned

/-- Where a descriptor is read, a stored value is read as well, and it is the same. -/
theorem ofJsonLenient?_of_ofJson (hfits : document.AllParts Json.IsFitting)
    (hkeys : document.AllParts Json.HasDistinctKeys) (h : ofJson document = .ok value) :
    ofJsonLenient? document = some value := by
  have hread : value.IsReadFor document := ⟨.root, h⟩
  have hnull : document.AllParts (· ≠ .null) := by
    rintro steps part hat rfl
    obtain ⟨value', hvalue'⟩ := hread.at? hat
    exact hvalue'.not_isRefused .null
  obtain ⟨stored, hstored⟩ := exists_ofJsonLenient? document hkeys hnull
  have hstructure := hasStructureOf_of_ofJson h
  have hstructure' := hasStructureOf_of_ofJsonLenient? hfits hstored
  rw [hstored, hstructure.eq hstructure' fun _ _ _ ↦ eq_of_isNumber]

end Value

namespace Format

variable {text : String} {document : Json}

/-- The two readers on a text whose objects repeat no key. Stored values are read by trying the
variants in order. If a descriptor is read, the stored value is the same. If not, then because of a
null no stored value is read either, and without a null one is read that holds integers beyond the
signed range as floats. -/
theorem ofJsonLenient?_of_readJson (h : Json.parse text = .ok document)
    (hkeys : document.AllParts Json.HasDistinctKeys) :
    (document.AllParts fun part ↦
      Value.ofJsonLenient? part = (Value.variants Value.ofJsonLenient?).findSome? (· part)) ∧
    (∀ value, readJson text = .ok value → Value.ofJsonLenient? document = some value) ∧
    ∀ failure, readJson text = .error failure →
      ((∃ steps, document.at? steps = some .null) → Value.ofJsonLenient? document = none) ∧
      ((∀ steps, document.at? steps ≠ some .null) →
        ∃ value, Value.ofJsonLenient? document = some value ∧
          value.HasStructureOf Value.IsWidened document) := by
  have hfits := Json.allParts_isFitting_of_parse h
  refine ⟨fun steps part hat ↦ Value.ofJsonLenient?_eq_findSome? (hfits steps part hat), ?_, ?_⟩
  · intro value hvalue
    rw [readJson_of_parse h] at hvalue
    exact Value.ofJsonLenient?_of_ofJson hfits hkeys (mapError_eq_ok.1 hvalue)
  · intro failure _
    constructor
    · rintro ⟨steps, hat⟩
      exact Value.ofJsonLenient?_eq_none hat
    · intro hnull
      obtain ⟨value, hvalue⟩ := Value.exists_ofJsonLenient? document hkeys
        (by rintro steps part hat rfl; exact hnull steps hat)
      exact ⟨value, hvalue, Value.hasStructureOf_of_ofJsonLenient? hfits hvalue⟩

def limited (n : Int) : Json :=
  .object [("limit", .number (.integer n)), ("tags", .array [.string "core", .bool true])]

theorem allParts_limited {P : Json → Prop} {n : Int} (hobject : P (limited n))
    (hnumber : P (.number (.integer n))) (harray : P (.array [.string "core", .bool true]))
    (hstring : P (.string "core")) (hbool : P (.bool true)) : (limited n).AllParts P := by
  have hitems : ∀ item ∈ [Json.string "core", .bool true], item.AllParts P :=
    List.forall_mem_cons.2 ⟨.of_parts_eq_nil hstring rfl,
      List.forall_mem_singleton.2 (.of_parts_eq_nil hbool rfl)⟩
  exact .object hobject (List.forall_mem_cons.2 ⟨.of_parts_eq_nil hnumber rfl,
    List.forall_mem_singleton.2 (.array harray hitems)⟩)

theorem parse_limited {n : Int} (h : Json.Fits n) :
    Json.parse (limited n).compact = .ok (limited n) := by
  have hdepth : (limited n).depth ≤ Json.maxDepth := by
    rw [limited]
    simp +decide [Json.depth, Json.entriesDepth, Json.itemsDepth]
  refine Json.parse_compact (.object ?_) hdepth
  have hitems : ∀ item ∈ [Json.string "core", .bool true], item.IsExact :=
    List.forall_mem_cons.2 ⟨.string "core", List.forall_mem_singleton.2 (.bool true)⟩
  exact List.forall_mem_cons.2 ⟨.integer h, List.forall_mem_singleton.2 (.array hitems)⟩

theorem allParts_hasDistinctKeys_limited (n : Int) :
    (limited n).AllParts Json.HasDistinctKeys :=
  allParts_limited (by decide : ["limit", "tags"].Nodup) trivial trivial trivial trivial

/-- A small limit is read in the same way for a descriptor and for a stored value. One that only
fits without a sign is refused in a descriptor, but stored as a float. -/
theorem ofJsonLenient?_of_readJson_limited :
    (Json.parse (limited 7).compact = .ok (limited 7) ∧
      (limited 7).AllParts Json.HasDistinctKeys ∧
      ∃ value, readJson (limited 7).compact = .ok value ∧
        Value.ofJsonLenient? (limited 7) = some value) ∧
    Json.parse (limited 0x8000000000000000).compact = .ok (limited 0x8000000000000000) ∧
      (limited 0x8000000000000000).AllParts Json.HasDistinctKeys ∧
      (∃ failure, readJson (limited 0x8000000000000000).compact = .error failure) ∧
      ∃ value, Value.ofJsonLenient? (limited 0x8000000000000000) = some value ∧
        value.HasStructureOf Value.IsWidened (limited 0x8000000000000000) := by
  have hparse : Json.parse (limited 7).compact = .ok (limited 7) :=
    parse_limited (by simp [Json.Fits])
  have hparse' := parse_limited (n := 0x8000000000000000) (by simp [Json.Fits])
  constructor
  · refine ⟨hparse, allParts_hasDistinctKeys_limited 7, ?_⟩
    obtain ⟨value, hvalue⟩ : ∃ value, readJson (limited 7).compact = .ok value := by
      rw [readJson_of_parse hparse]
      exact ⟨_, rfl⟩
    obtain ⟨-, hsame, -⟩ := ofJsonLenient?_of_readJson hparse (allParts_hasDistinctKeys_limited 7)
    exact ⟨value, hvalue, hsame value hvalue⟩
  · refine ⟨hparse', allParts_hasDistinctKeys_limited _, ?_⟩
    obtain ⟨failure, hfailure⟩ : ∃ failure,
        readJson (limited 0x8000000000000000).compact = .error failure := by
      rw [readJson_of_parse hparse']
      exact ⟨_, rfl⟩
    have hnull : (limited 0x8000000000000000).AllParts (· ≠ .null) :=
      allParts_limited (by simp [limited]) (by simp) (by simp) (by simp) (by simp)
    obtain ⟨-, -, hother⟩ := ofJsonLenient?_of_readJson hparse' (allParts_hasDistinctKeys_limited _)
    exact ⟨⟨failure, hfailure⟩,
      (hother failure hfailure).2 fun steps hat ↦ hnull steps .null hat rfl⟩

end Format

end Reactor

import Mathlib.Data.List.Pairwise
import Mathlib.Data.List.Perm.Subperm
import Reactor.Proofs.SortedMap
import Reactor.Proofs.Text.Utf8
import Reactor.Script.Data

/-!
# Tables as sequences and mappings

Where a table has gaps, its border is not determined and may happen to be the number of its entries,
so the length test alone does not tell a sequence. Still the value of a table depends on its keys
only: a table that passes the test without having exactly the keys from one on lacks an item that
the sequence would hold, and one that does not pass it has some other key.
-/

namespace Reactor.Script.Data

open Text (Utf8.bytesOf)

variable {pointer : Value.Pointer} {border : Nat} {entries : List (Key × Data)} {items : List Data}
  {values : List Value} {value : Value}

/-! ## Conversions at any place -/

/-- Whether data has a value, at whichever place it stands. -/
def Converts (data : Data) (value : Value) : Prop :=
  ∀ pointer, data.toValue pointer = .ok value

/-- Whether an entry of a table makes a field of a mapping. -/
def ConvertsField (entry : Key × Data) (field : String × Value) : Prop :=
  entry.1 = .string (Utf8.bytesOf field.1) ∧ Converts entry.2 field.2

theorem textAt_eq_ok_iff {bytes : List UInt8} {text : String} :
    textAt pointer bytes = .ok text ↔ bytes = Utf8.bytesOf text := by
  rw [textAt, mapError_eq_ok, Text.Utf8.decode_eq_ok_iff]

theorem keyAt_eq_ok_iff {key : Key} {name : String} :
    keyAt pointer key = .ok name ↔ key = .string (Utf8.bytesOf name) := by
  cases key with
  | string bytes => rw [keyAt, textAt_eq_ok_iff, Key.string.injEq]
  | integer n => simp [keyAt]
  | other typeName => simp [keyAt]

theorem carriesOver_keyAt (p q : Value.Pointer) (key : Key) :
    CarriesOver (keyAt p key) (keyAt q key) := by
  intro name h
  exact keyAt_eq_ok_iff.2 (keyAt_eq_ok_iff.1 h)

mutual

/-- Whether data has a value, and which one, does not depend on its place. -/
theorem carriesOver_toValue (p q : Value.Pointer) : (data : Data) →
    CarriesOver (data.toValue p) (data.toValue q)
  | .nil => nofun
  | .bool value => .refl _
  | .number n => by
    cases n <;> exact .refl _
  | .string bytes => .map _ fun text h ↦ textAt_eq_ok_iff.2 (textAt_eq_ok_iff.1 h)
  | .table border entries => by
    rw [toValue, toValue]
    split
    · exact .map _ (.mapM (fun index ↦ carriesOver_itemValue p q (index + 1) entries) _)
    · exact .map _ (carriesOver_entryValues p q entries)
  | .other _ => nofun

theorem carriesOver_itemValue (p q : Value.Pointer) (index : Nat) :
    (entries : List (Key × Data)) →
      CarriesOver (itemValue p index entries) (itemValue q index entries)
  | [] => nofun
  | (key, data) :: rest => by
    rw [itemValue, itemValue]
    split
    · exact carriesOver_toValue (p.item index) (q.item index) data
    · exact carriesOver_itemValue p q index rest

theorem carriesOver_entryValues (p q : Value.Pointer) : (entries : List (Key × Data)) →
    CarriesOver (entryValues p entries) (entryValues q entries)
  | [] => .refl _
  | (key, data) :: rest => by
    rw [entryValues, entryValues]
    exact .bind (carriesOver_keyAt p q key) fun name _ ↦
      .bind (carriesOver_toValue (p.entry name) (q.entry name) data) fun value _ ↦
        .bind (carriesOver_entryValues p q rest) fun values _ ↦ .refl _

end

theorem converts_iff {data : Data} (pointer : Value.Pointer) :
    Converts data value ↔ data.toValue pointer = .ok value :=
  ⟨fun h ↦ h pointer, fun h other ↦ carriesOver_toValue pointer other data value h⟩

def fieldValue (pointer : Value.Pointer) (entry : Key × Data) :
    Except Value.Rejection (String × Value) := do
  let name ← keyAt pointer entry.1
  let value ← entry.2.toValue (pointer.entry name)
  .ok (name, value)

theorem fieldValue_eq_ok_iff {entry : Key × Data} {field : String × Value} :
    fieldValue pointer entry = .ok field ↔ ConvertsField entry field := by
  simp only [fieldValue, ConvertsField, bind_eq_ok, keyAt_eq_ok_iff, ← converts_iff,
    Except.ok.injEq]
  constructor
  · rintro ⟨name, hkey, value, hvalue, rfl⟩
    exact ⟨hkey, hvalue⟩
  · rintro ⟨hkey, hvalue⟩
    exact ⟨_, hkey, _, hvalue, rfl⟩

theorem entryValues_eq_mapM (pointer : Value.Pointer) (entries : List (Key × Data)) :
    entryValues pointer entries = entries.mapM (fieldValue pointer) := by
  induction entries with
  | nil => rfl
  | cons entry rest ih =>
    obtain ⟨key, data⟩ := entry
    rw [entryValues, List.mapM_cons, ih, fieldValue]
    simp only [bind_assoc]
    rfl

theorem entryValues_eq_ok_iff {written : List (String × Value)} :
    entryValues pointer entries = .ok written ↔ List.Forall₂ ConvertsField entries written := by
  rw [entryValues_eq_mapM, mapM_eq_ok]
  simp only [fieldValue_eq_ok_iff]

/-- The item of a table with an index, counted from one. Where there is none, it is nil. -/
def itemAt (index : Nat) (entries : List (Key × Data)) : Data :=
  ((entries.find? (·.1 = .integer (Int64.ofNat index))).map Prod.snd).getD .nil

theorem itemValue_eq_toValue (pointer : Value.Pointer) (index : Nat) (entries : List (Key × Data)) :
    itemValue pointer index entries = (itemAt index entries).toValue (pointer.item index) := by
  induction entries with
  | nil => rfl
  | cons entry rest ih =>
    obtain ⟨key, data⟩ := entry
    rw [itemValue, ih]
    unfold itemAt
    split
    case isTrue hkey => simp [hkey]
    case isFalse hkey => simp [hkey]

/-! ## Tables -/

/-- Whether a border and entries can be those of a table. -/
structure IsTable (border : Nat) (entries : List (Key × Data)) : Prop where
  /-- No key occurs twice. Of the keys of other types just the type is known, so that different ones
  may look the same. -/
  distinct : entries.Pairwise fun a b ↦ a.1 = b.1 → ∃ typeName, a.1 = .other typeName
  /-- There is an item at the border, unless the border is zero. -/
  occupied : border = 0 ∨ ∃ entry ∈ entries, ∃ n : Int64, entry.1 = .integer n ∧ n.toInt = border
  /-- There is no item after the border. -/
  vacant : ∀ entry ∈ entries, ∀ n : Int64, entry.1 = .integer n → n.toInt ≠ border + 1

def numbered (items : List Data) : List (Key × Data) :=
  items.mapIdx fun index item ↦ (.integer (Int64.ofNat (index + 1)), item)

/-- Whether the keys of a table are exactly the indices of the given items, from one on. -/
def IsNumbered (entries : List (Key × Data)) (items : List Data) : Prop :=
  items.length < 0x8000000000000000 ∧ entries.Perm (numbered items)

/-- Which value a table has by its keys: a sequence of all its items in the order of their indices,
or a mapping with all its entries. -/
inductive Denotes (entries : List (Key × Data)) : Value → Prop
  | sequence {items : List Data} {values : List Value} (hne : items ≠ [])
    (hkeys : IsNumbered entries items) (hitems : List.Forall₂ Converts items values) :
    Denotes entries (.sequence values)
  | mapping {written fields : List (String × Value)}
    (hentries : List.Forall₂ ConvertsField entries written) (hperm : fields.Perm written)
    (hordered : fields.Pairwise fun a b ↦ a.1 < b.1) : Denotes entries (.mapping fields)

/-- Whether the keys of a table are those of a sequence or those of a mapping. The table without
entries counts as a mapping. -/
def IsKeyed (entries : List (Key × Data)) : Prop :=
  (∃ items, items ≠ [] ∧ IsNumbered entries items) ∨
    ∀ entry ∈ entries, ∃ name, entry.1 = .string (Utf8.bytesOf name)

theorem IsTable.border_lt (h : IsTable border entries) : border < 0x8000000000000000 := by
  rcases h.occupied with hzero | ⟨_, _, n, _, hn⟩
  · omega
  · have hlt := n.toInt_lt
    omega

/-- An item of a table is the only one at its index. -/
theorem IsTable.eq_of_mem (h : IsTable border entries) {n : Int64} {data other : Data}
    (hdata : (.integer n, data) ∈ entries) (hother : (.integer n, other) ∈ entries) :
    data = other := by
  have hsymm : Std.Symm fun a b : Key × Data ↦ a.1 = b.1 → ∃ typeName, a.1 = .other typeName :=
    ⟨fun a b hab heq ↦ heq ▸ hab heq.symm⟩
  by_contra hne
  obtain ⟨_, hkey⟩ := h.distinct.forall hdata hother (fun heq ↦ hne (Prod.ext_iff.1 heq).2) rfl
  cases hkey

theorem mem_of_itemAt_ne_nil {index : Nat} (h : itemAt index entries ≠ nil) :
    (.integer (Int64.ofNat index), itemAt index entries) ∈ entries := by
  unfold itemAt at h ⊢
  cases hfound : entries.find? (·.1 = .integer (Int64.ofNat index)) with
  | none =>
    rw [hfound] at h
    exact absurd rfl h
  | some entry =>
    have hkey : entry.1 = .integer (Int64.ofNat index) := by simpa using List.find?_some hfound
    exact hkey ▸ List.mem_of_find?_eq_some hfound

theorem IsTable.itemAt_eq (h : IsTable border entries) {index : Nat} {data : Data}
    (hmem : (.integer (Int64.ofNat index), data) ∈ entries) : itemAt index entries = data := by
  have hsome : (entries.find? (·.1 = .integer (Int64.ofNat index))).isSome := by
    rw [List.find?_isSome]
    exact ⟨_, hmem, by simp⟩
  obtain ⟨entry, hfound⟩ := Option.isSome_iff_exists.1 hsome
  have hkey : entry.1 = .integer (Int64.ofNat index) := by simpa using List.find?_some hfound
  have hentry : (.integer (Int64.ofNat index), entry.2) ∈ entries :=
    hkey ▸ List.mem_of_find?_eq_some hfound
  rw [itemAt, hfound]
  exact h.eq_of_mem hentry hmem

theorem IsTable.itemValue_eq_ok_iff (h : IsTable border entries) {index : Nat} :
    itemValue pointer index entries = .ok value ↔
      ∃ data, (.integer (Int64.ofNat index), data) ∈ entries ∧ Converts data value := by
  rw [itemValue_eq_toValue, ← converts_iff]
  constructor
  · intro hitem
    refine ⟨_, mem_of_itemAt_ne_nil fun hnil ↦ ?_, hitem⟩
    cases hnil ▸ hitem .root
  · rintro ⟨data, hmem, hdata⟩
    rw [h.itemAt_eq hmem]
    exact hdata

/-! ## Counting the entries -/

theorem length_numbered (items : List Data) : (numbered items).length = items.length :=
  List.length_mapIdx

theorem numbered_subset_iff : numbered items ⊆ entries ↔
    List.Forall₂ (fun index item ↦ (.integer (Int64.ofNat (index + 1)), item) ∈ entries)
      (List.range items.length) items := by
  rw [List.forall₂_iff_get]
  constructor
  · intro h
    refine ⟨List.length_range, fun index _ hindex ↦ h ?_⟩
    apply List.mem_mapIdx.2
    exact ⟨index, hindex, by simp⟩
  · rintro ⟨-, h⟩ entry hentry
    obtain ⟨index, hindex, rfl⟩ := List.mem_mapIdx.1 hentry
    simpa using h index (by simpa using hindex) hindex

theorem toInt_ofNat_succ {index : Nat} (h : index < 0x7FFFFFFFFFFFFFFF) :
    (Int64.ofNat (index + 1)).toInt = index + 1 := by
  rw [Int64.toInt_ofNat_of_lt (by omega)]
  rfl

/-- Items at different indices have different keys. -/
theorem nodup_numbered (h : items.length < 0x8000000000000000) : (numbered items).Nodup := by
  apply List.pairwise_iff_getElem.2
  intro i j hi hj hlt heq
  simp only [numbered, List.length_mapIdx] at hi hj
  simp only [numbered, List.getElem_mapIdx, Prod.mk.injEq, Key.integer.injEq] at heq
  have hindex := congrArg Int64.toInt heq.1
  rw [toInt_ofNat_succ (by omega), toInt_ofNat_succ (by omega)] at hindex
  omega

/-- A table with as many entries as there are items has no entries but these items. -/
theorem isNumbered_of_subset (hlt : items.length < 0x8000000000000000)
    (hsubset : numbered items ⊆ entries) (hlength : entries.length = items.length) :
    IsNumbered entries items := by
  have hsubperm := List.subperm_of_subset (nodup_numbered hlt) hsubset
  have hle : entries.length ≤ (numbered items).length := by
    rw [length_numbered, hlength]
  exact ⟨hlt, (hsubperm.perm_of_length_le hle).symm⟩

theorem IsNumbered.length_eq (h : IsNumbered entries items) : entries.length = items.length := by
  rw [h.2.length_eq, length_numbered]

/-- The keys of a numbered table are the integers from one to the number of its items. -/
theorem IsNumbered.exists_key_iff (h : IsNumbered entries items) {m : Int} :
    (∃ entry ∈ entries, ∃ n : Int64, entry.1 = .integer n ∧ n.toInt = m) ↔
      0 < m ∧ m ≤ items.length := by
  have hlt := h.1
  constructor
  · rintro ⟨entry, hentry, n, hkey, rfl⟩
    obtain ⟨index, hindex, rfl⟩ := List.mem_mapIdx.1 (h.2.subset hentry)
    obtain rfl := Key.integer.inj hkey
    rw [toInt_ofNat_succ (by omega)]
    omega
  · rintro ⟨hpos, hle⟩
    have hindex : m.toNat - 1 < items.length := by omega
    refine ⟨_, h.2.symm.subset (List.mem_mapIdx.2 ⟨m.toNat - 1, hindex, rfl⟩), _, rfl, ?_⟩
    rw [toInt_ofNat_succ (by omega)]
    omega

/-- A numbered table has only one border. -/
theorem IsTable.border_eq (h : IsTable border entries) (hitems : IsNumbered entries items)
    (hne : items ≠ []) : border = items.length := by
  have hpos : 0 < items.length := List.length_pos_iff.2 hne
  have hvacant : ¬((0 : Int) < border + 1 ∧ (border + 1 : Int) ≤ items.length) := by
    rw [← hitems.exists_key_iff]
    rintro ⟨entry, hentry, n, hkey, hn⟩
    exact h.vacant entry hentry n hkey hn
  rcases h.occupied with hzero | hoccupied
  · omega
  · have hle := (hitems.exists_key_iff.1 hoccupied).2
    omega

/-- A table whose keys are all texts has only the border zero. -/
theorem IsTable.border_eq_zero (h : IsTable border entries) {written : List (String × Value)}
    (hentries : List.Forall₂ ConvertsField entries written) : border = 0 := by
  rcases h.occupied with hzero | ⟨entry, hentry, n, hkey, -⟩
  · exact hzero
  · obtain ⟨field, -, hfield, -⟩ := exists_of_forall₂ hentries hentry
    rw [hkey] at hfield
    cases hfield

/-! ## Values of tables -/

theorem IsTable.items_eq_ok_iff (h : IsTable border entries) :
    (List.range border).mapM (fun index ↦ itemValue pointer (index + 1) entries) = .ok values ↔
      ∃ items, items.length = border ∧ numbered items ⊆ entries ∧
        List.Forall₂ Converts items values := by
  simp only [mapM_eq_ok, h.itemValue_eq_ok_iff, forall₂_exists_iff, numbered_subset_iff]
  constructor
  · rintro ⟨items, hitems, hvalues⟩
    have hlength : items.length = border := by
      rw [← hitems.length_eq, List.length_range]
    rw [← hlength] at hitems
    exact ⟨items, hlength, hitems, hvalues⟩
  · rintro ⟨items, rfl, hitems, hvalues⟩
    exact ⟨items, hitems, hvalues⟩

/-- Different entries of a table make fields with different keys. -/
theorem IsTable.nodup_keys (h : IsTable border entries) {written : List (String × Value)}
    (hentries : List.Forall₂ ConvertsField entries written) : (written.map Prod.fst).Nodup := by
  have hkeys : entries.map Prod.fst =
      written.map fun field ↦ .string (Utf8.bytesOf field.1) :=
    map_eq_of_forall₂ hentries fun _ _ hfield ↦ hfield.1
  have hdistinct : (entries.map Prod.fst).Pairwise fun a b ↦
      a = b → ∃ typeName, a = .other typeName :=
    List.pairwise_map.2 h.distinct
  rw [hkeys, List.pairwise_map] at hdistinct
  apply List.pairwise_map.2
  refine hdistinct.imp fun {a b} hab heq ↦ ?_
  obtain ⟨_, hkey⟩ := hab (by rw [heq])
  cases hkey

theorem ofList_eq_of_perm {written fields : List (String × Value)}
    (hnodup : (written.map Prod.fst).Nodup) (hperm : fields.Perm written)
    (hordered : fields.Pairwise fun a b ↦ a.1 < b.1) :
    (SortedMap.ofList written).entries = fields := by
  have hfields : (SortedMap.ofList written).entries.Perm fields :=
    (SortedMap.perm_entries_ofList hnodup).trans hperm.symm
  refine hfields.eq_of_pairwise ?_ (SortedMap.ofList written).increasing hordered
  intro a b _ _ hab hba
  exact absurd hba (String.lt_asymm hab)

/-- A table that passes the length test has a value if it is numbered. -/
theorem IsTable.toValue_of_length (h : IsTable border entries) (hpos : 0 < border)
    (hlength : entries.length = border) :
    (table border entries).toValue pointer = .ok value ↔ Denotes entries value := by
  rw [toValue, if_pos ⟨hpos, hlength⟩, map_eq_ok]
  constructor
  · rintro ⟨values, hvalues, rfl⟩
    obtain ⟨items, hitems, hsubset, hconverts⟩ := h.items_eq_ok_iff.1 hvalues
    have hne : items ≠ [] := by
      rintro rfl
      simp at hitems
      omega
    have hlt : items.length < 0x8000000000000000 := hitems ▸ h.border_lt
    -- The items are as many as the entries, so there is no entry besides them.
    exact .sequence hne (isNumbered_of_subset hlt hsubset (hlength.trans hitems.symm)) hconverts
  · intro hdenotes
    cases hdenotes with
    | @sequence items values hne hkeys hitems =>
      refine ⟨values, h.items_eq_ok_iff.2 ⟨items, ?_, hkeys.2.symm.subset, hitems⟩, rfl⟩
      exact (h.border_eq hkeys hne).symm
    | mapping hentries _ _ =>
      have hzero := h.border_eq_zero hentries
      omega

/-- A table that does not pass the length test has a value if its keys are texts. -/
theorem IsTable.toValue_of_not_length (h : IsTable border entries)
    (hlength : ¬(0 < border ∧ entries.length = border)) :
    (table border entries).toValue pointer = .ok value ↔ Denotes entries value := by
  rw [toValue, if_neg hlength, map_eq_ok]
  simp only [entryValues_eq_ok_iff]
  constructor
  · rintro ⟨written, hentries, rfl⟩
    exact .mapping hentries (SortedMap.perm_entries_ofList (h.nodup_keys hentries))
      (SortedMap.ofList written).increasing
  · intro hdenotes
    cases hdenotes with
    | sequence hne hkeys _ =>
      -- The border of a numbered table is its length, so it would pass the test.
      refine absurd ⟨?_, ?_⟩ hlength
      · rw [h.border_eq hkeys hne]
        exact List.length_pos_iff.2 hne
      · rw [h.border_eq hkeys hne, hkeys.length_eq]
    | @mapping written fields hentries hperm hordered =>
      refine ⟨written, hentries, ?_⟩
      rw [ofList_eq_of_perm (h.nodup_keys hentries) hperm hordered]

theorem Denotes.isKeyed (h : Denotes entries value) : IsKeyed entries := by
  cases h with
  | @sequence items _ hne hkeys _ => exact .inl ⟨items, hne, hkeys⟩
  | mapping hentries _ _ =>
    refine .inr fun entry hentry ↦ ?_
    obtain ⟨field, -, hkey, -⟩ := exists_of_forall₂ hentries hentry
    exact ⟨field.1, hkey⟩

/-- With fitting keys, it is enough that each item has a value. -/
theorem IsTable.exists_denotes (h : IsTable border entries) (hkeyed : IsKeyed entries)
    (hitems : ∀ entry ∈ entries, ∃ value, Converts entry.2 value) :
    ∃ value, Denotes entries value := by
  rcases hkeyed with ⟨items, hne, hkeys⟩ | hnames
  · have hconverts : ∀ item ∈ items, ∃ value, Converts item value := by
      intro item hitem
      obtain ⟨index, hindex, rfl⟩ := List.mem_iff_getElem.1 hitem
      exact hitems _ (hkeys.2.symm.subset (List.mem_mapIdx.2 ⟨index, hindex, rfl⟩))
    obtain ⟨values, hvalues⟩ := exists_forall₂_iff.2 hconverts
    exact ⟨_, .sequence hne hkeys hvalues⟩
  · have hfields : ∀ entry ∈ entries, ∃ field, ConvertsField entry field := by
      intro entry hentry
      obtain ⟨name, hkey⟩ := hnames entry hentry
      obtain ⟨value, hvalue⟩ := hitems entry hentry
      exact ⟨(name, value), hkey, hvalue⟩
    obtain ⟨written, hwritten⟩ := exists_forall₂_iff.2 hfields
    exact ⟨_, .mapping hwritten (SortedMap.perm_entries_ofList (h.nodup_keys hwritten))
      (SortedMap.ofList written).increasing⟩

/-- Whichever border a table has, its keys tell what its value is: the sequence of all its items in
the order of the indices if the keys are exactly the indices from one on, and the mapping of all its
entries if the keys are texts. A table with any other keys is rejected, and so is one with an item
that has no value. -/
theorem toValue_table_of_isTable (h : IsTable border entries) (pointer : Value.Pointer) :
    (∀ value, (table border entries).toValue pointer = .ok value ↔ Denotes entries value) ∧
      (IsKeyed entries → (∀ entry ∈ entries, ∃ value, Converts entry.2 value) →
        ∃ value, (table border entries).toValue pointer = .ok value) ∧
      (¬IsKeyed entries →
        ∃ rejection, (table border entries).toValue pointer = .error rejection) := by
  have hvalue (value : Value) :
      (table border entries).toValue pointer = .ok value ↔ Denotes entries value := by
    by_cases hlength : 0 < border ∧ entries.length = border
    · exact h.toValue_of_length hlength.1 hlength.2
    · exact h.toValue_of_not_length hlength
  refine ⟨hvalue, fun hkeyed hitems ↦ ?_, fun hkeys ↦ ?_⟩
  · obtain ⟨value, hdenotes⟩ := h.exists_denotes hkeyed hitems
    exact ⟨value, (hvalue value).2 hdenotes⟩
  · apply exists_error_of_ne_ok
    intro value hok
    exact hkeys ((hvalue value).1 hok).isKeyed

/-- Items are put in the order of their indices. -/
example : (table 2 [(.integer 2, .bool false), (.integer 1, .bool true)]).toValue .root =
    .ok (.sequence [.bool true, .bool false]) := by
  rfl

/-! ## A table with gaps -/

/-- Entries at the indices one and four, and two entries with other keys. -/
def scattered : List (Key × Data) :=
  [(.integer 1, .bool true), (.integer 4, .bool true), (.string [97], .bool true),
    (.string [98], .bool true)]

/-- Four is a border of the table, and it has four entries. -/
theorem isTable_scattered : IsTable 4 scattered := by
  refine ⟨?_, .inr ⟨(.integer 4, .bool true), by simp [scattered], 4, rfl, by decide⟩, ?_⟩
  · simp [scattered]
  · intro entry hentry n hkey
    simp only [scattered, List.mem_cons, List.not_mem_nil, or_false] at hentry
    rcases hentry with rfl | rfl | rfl | rfl <;> cases hkey <;> decide

theorem not_isKeyed_scattered : ¬IsKeyed scattered := by
  rintro (⟨items, -, hkeys⟩ | hnames)
  · have hmem := hkeys.2.subset (show (.string [97], .bool true) ∈ scattered by simp [scattered])
    obtain ⟨index, _, heq⟩ := List.mem_mapIdx.1 hmem
    cases heq
  · obtain ⟨name, hkey⟩ := hnames (.integer 1, .bool true) (by simp [scattered])
    cases hkey

theorem toValue_scattered : IsTable 4 scattered ∧ ¬IsKeyed scattered ∧
    ∃ rejection, (table 4 scattered).toValue .root = .error rejection :=
  ⟨isTable_scattered, not_isKeyed_scattered,
    (toValue_table_of_isTable isTable_scattered .root).2.2 not_isKeyed_scattered⟩

end Reactor.Script.Data

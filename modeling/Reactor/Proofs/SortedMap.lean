import Mathlib.Data.List.Induction
import Mathlib.Data.List.Sort
import Reactor.Proofs.Outcome
import Reactor.SortedMap

/-!
# Entries of sorted maps

A map is determined by what it says of each key. Where the entries of a combined map come from, and
how a fallible step applied to all values of a map succeeds and fails.
-/

namespace Reactor.SortedMap

variable {α β ε : Type} {base top : SortedMap α} {entry : String × α}

theorem mem_insert {key : String} {value : α} (h : entry ∈ (base.insert key value).entries) :
    entry = (key, value) ∨ entry ∈ base.entries :=
  mem_insertEntry h

theorem mem_foldl_insert {entries : List (String × α)}
    (h : entry ∈ (entries.foldl (fun m entry ↦ m.insert entry.1 entry.2) base).entries) :
    entry ∈ base.entries ∨ entry ∈ entries := by
  induction entries generalizing base with
  | nil => exact .inl h
  | cons first rest ih =>
    rw [List.foldl_cons] at h
    rcases ih h with h | h
    · rcases mem_insert h with rfl | h
      · exact .inr List.mem_cons_self
      · exact .inl h
    · exact .inr (List.mem_cons_of_mem _ h)

/-- An overlay has no entries but those of its parts. -/
theorem mem_overlay (h : entry ∈ (base.overlay top).entries) :
    entry ∈ base.entries ∨ entry ∈ top.entries :=
  mem_foldl_insert h

theorem mem_ofList {entries : List (String × α)} (h : entry ∈ (ofList entries).entries) :
    entry ∈ entries := by
  rcases mem_foldl_insert h with h | h
  · exact absurd h List.not_mem_nil
  · exact h

/-! ## Look-ups -/

theorem lookup_cons_eq_ite (key : String) (head : String × α) (rest : List (String × α)) :
    (head :: rest).lookup key = if key = head.1 then some head.2 else rest.lookup key := by
  obtain ⟨k, v⟩ := head
  rw [List.lookup_cons]
  by_cases hkey : key = k
  · simp [hkey]
  · simp [beq_false_of_ne hkey, hkey]

theorem lookup_insertEntry (key other : String) (value : α) (entries : List (String × α)) :
    (insertEntry key value entries).lookup other =
      if other = key then some value else entries.lookup other := by
  induction entries with
  | nil => rw [insertEntry, lookup_cons_eq_ite]
  | cons head rest ih =>
    obtain ⟨k, v⟩ := head
    rw [insertEntry]
    split
    · rw [lookup_cons_eq_ite]
    · split
      case isTrue hsame =>
        subst hsame
        simp only [lookup_cons_eq_ite]
        split <;> rfl
      case isFalse hdifferent =>
        simp only [lookup_cons_eq_ite, ih]
        by_cases hhead : other = k
        · simp [hhead, Ne.symm hdifferent]
        · simp [hhead]

theorem get?_insert (m : SortedMap α) (key other : String) (value : α) :
    (m.insert key value).get? other = if other = key then some value else m.get? other :=
  lookup_insertEntry key other value m.entries

theorem ofList_append_singleton (entries : List (String × α)) (entry : String × α) :
    ofList (entries ++ [entry]) = (ofList entries).insert entry.1 entry.2 := by
  rw [ofList, List.foldl_append]
  rfl

/-- Of several entries with one key, a map made from a list has the last one. -/
theorem get?_ofList (entries : List (String × α)) (key : String) :
    (ofList entries).get? key = entries.reverse.lookup key := by
  induction entries using List.reverseRecOn with
  | nil => rfl
  | append_singleton entries entry ih =>
    rw [ofList_append_singleton, get?_insert, ih, List.reverse_append, List.reverse_singleton,
      List.singleton_append, lookup_cons_eq_ite]

theorem lookup_map (f : α → β) (entries : List (String × α)) (key : String) :
    (entries.map fun entry ↦ (entry.1, f entry.2)).lookup key = (entries.lookup key).map f := by
  induction entries with
  | nil => rfl
  | cons head rest ih =>
    rw [List.map_cons, lookup_cons_eq_ite, lookup_cons_eq_ite, ih]
    split <;> rfl

theorem lookup_eq_none_of_forall_lt {key : String} {entries : List (String × α)}
    (h : ∀ entry ∈ entries, key < entry.1) : entries.lookup key = none := by
  rw [List.lookup_eq_none_iff]
  intro entry hentry
  have hne : key ≠ entry.1 := fun heq ↦ String.lt_irrefl _ (heq ▸ h entry hentry)
  simpa using hne

/-- A name means what the upper map says, and otherwise what the lower one says. -/
theorem get?_overlay (base top : SortedMap α) (key : String) :
    (base.overlay top).get? key = (top.get? key).or (base.get? key) := by
  obtain ⟨entries, hincreasing⟩ := top
  unfold overlay
  change (entries.foldl (fun m entry ↦ m.insert entry.1 entry.2) base).get? key =
    (entries.lookup key).or (base.get? key)
  induction entries generalizing base with
  | nil => rfl
  | cons head rest ih =>
    obtain ⟨hhead, hrest⟩ := List.pairwise_cons.1 hincreasing
    rw [List.foldl_cons, ih _ hrest, get?_insert, lookup_cons_eq_ite]
    by_cases hkey : key = head.1
    · subst hkey
      rw [lookup_eq_none_of_forall_lt hhead]
      simp
    · simp [hkey]

theorem get?_erase_self (m : SortedMap α) (key : String) : (m.erase key).get? key = none := by
  apply List.lookup_eq_none_iff.2
  intro entry hentry
  have hne : entry.1 ≠ key := by simpa using (List.mem_filter.1 hentry).2
  simpa using hne.symm

theorem mem_keys_iff {m : SortedMap α} {key : String} :
    key ∈ m.keys ↔ (m.get? key).isSome = true := by
  unfold keys get?
  induction m.entries with
  | nil => simp
  | cons head rest ih =>
    rw [List.map_cons, List.mem_cons, lookup_cons_eq_ite, ih]
    by_cases hkey : key = head.1 <;> simp [hkey]

/-! ## Maps as functions of their keys -/

theorem eq_of_entries_eq {m m' : SortedMap α} (h : m.entries = m'.entries) : m = m' := by
  cases m
  cases m'
  cases h
  rfl

/-- The entries of a map are the pairs of a key and what the map says of it. -/
theorem mem_entries_iff {m : SortedMap α} : entry ∈ m.entries ↔ m.get? entry.1 = some entry.2 := by
  obtain ⟨entries, hincreasing⟩ := m
  change entry ∈ entries ↔ entries.lookup entry.1 = some entry.2
  induction entries with
  | nil => simp
  | cons head rest ih =>
    obtain ⟨hhead, hrest⟩ := List.pairwise_cons.1 hincreasing
    rw [List.mem_cons, lookup_cons_eq_ite, ih hrest]
    by_cases hkey : entry.1 = head.1
    · have hnone : rest.lookup entry.1 = none := by
        rw [hkey]
        exact lookup_eq_none_of_forall_lt hhead
      rw [if_pos hkey, hnone, Prod.ext_iff]
      simp [hkey, eq_comm]
    · have hne : entry ≠ head := fun heq ↦ hkey (congrArg Prod.fst heq)
      simp [hkey, hne]

theorem erase_of_get?_eq_none {m : SortedMap α} {key : String} (h : m.get? key = none) :
    m.erase key = m := by
  apply eq_of_entries_eq
  apply List.filter_eq_self.2
  intro entry hentry
  have hne : key ≠ entry.1 := by simpa using List.lookup_eq_none_iff.1 h entry hentry
  exact decide_eq_true hne.symm

theorem perm_insertEntry {key : String} {entries : List (String × α)}
    (h : key ∉ entries.map Prod.fst) (value : α) :
    (insertEntry key value entries).Perm ((key, value) :: entries) := by
  induction entries with
  | nil => exact .refl _
  | cons head rest ih =>
    rw [List.map_cons, List.mem_cons, not_or] at h
    rw [insertEntry]
    split
    · exact .refl _
    · rw [if_neg h.1]
      exact ((ih h.2).cons head).trans (.swap _ _ _)

/-- If no key occurs twice, a map made from a list has just the entries of the list. -/
theorem perm_entries_ofList {entries : List (String × α)} (h : (entries.map Prod.fst).Nodup) :
    (ofList entries).entries.Perm entries := by
  induction entries using List.reverseRecOn with
  | nil => exact .refl _
  | append_singleton entries entry ih =>
    rw [List.map_append, List.nodup_append] at h
    have hentries := ih h.1
    have hnew : entry.1 ∉ (ofList entries).entries.map Prod.fst := fun hmem ↦
      h.2.2 entry.1 ((hentries.map Prod.fst).subset hmem) entry.1 List.mem_cons_self rfl
    rw [ofList_append_singleton]
    calc
      List.Perm ((ofList entries).insert entry.1 entry.2).entries
          (entry :: (ofList entries).entries) := perm_insertEntry hnew entry.2
      List.Perm _ (entry :: entries) := hentries.cons entry
      List.Perm _ (entries ++ [entry]) := (List.perm_append_singleton entry entries).symm

/-- Two maps that say the same of every key are equal. -/
@[ext]
theorem ext_get? {m m' : SortedMap α} (h : ∀ key, m.get? key = m'.get? key) : m = m' := by
  have hirreflexive : Std.Irrefl fun a b : String × α ↦ a.1 < b.1 :=
    ⟨fun a ↦ String.lt_irrefl a.1⟩
  have hantisymmetric : Std.Antisymm fun a b : String × α ↦ a.1 < b.1 :=
    ⟨fun a b hab hba ↦ absurd hba (String.lt_asymm hab)⟩
  apply eq_of_entries_eq
  apply m.increasing.eq_of_mem_iff m'.increasing
  intro entry
  rw [mem_entries_iff, mem_entries_iff, h]

theorem ofList_map (f : α → β) (entries : List (String × α)) :
    ofList (entries.map fun entry ↦ (entry.1, f entry.2)) = (ofList entries).map f := by
  ext key : 1
  have hmap : ((ofList entries).map f).get? key = ((ofList entries).get? key).map f :=
    lookup_map f _ key
  rw [hmap, get?_ofList, get?_ofList, ← List.map_reverse, lookup_map]

theorem get?_empty (key : String) : (∅ : SortedMap α).get? key = none :=
  rfl

theorem empty_overlay (m : SortedMap α) : (∅ : SortedMap α).overlay m = m := by
  ext key : 1
  rw [get?_overlay, get?_empty, Option.or_none]

/-- Of three maps it does not matter which two are laid over each other first. -/
theorem overlay_assoc (bottom middle top : SortedMap α) :
    (bottom.overlay middle).overlay top = bottom.overlay (middle.overlay top) := by
  ext key : 1
  simp only [get?_overlay, Option.or_assoc]

theorem overlay_overlay_self (base top : SortedMap α) :
    base.overlay (base.overlay top) = base.overlay top := by
  ext key : 1
  simp only [get?_overlay]
  cases top.get? key <;> cases base.get? key <;> rfl

/-! ## Maps with related values -/

/-- Whether two maps have the same keys, and related values at each of them. -/
def Related (R : α → β → Prop) (m : SortedMap α) (m' : SortedMap β) : Prop :=
  List.Forall₂ (fun a b ↦ a.1 = b.1 ∧ R a.2 b.2) m.entries m'.entries

section Related

variable {R : α → β → Prop}

theorem Related.refl {S : α → α → Prop} (h : ∀ a, S a a) (m : SortedMap α) : m.Related S m :=
  List.forall₂_same.2 fun entry _ ↦ ⟨rfl, h entry.2⟩

theorem Related.mono {S : α → β → Prop} {m : SortedMap α} {m' : SortedMap β} (h : m.Related R m')
    (hRS : ∀ a b, R a b → S a b) : m.Related S m' :=
  List.Forall₂.imp (fun a b hab ↦ ⟨hab.1, hRS a.2 b.2 hab.2⟩) h

theorem keys_eq_of_forall₂ {entries : List (String × α)} {entries' : List (String × β)}
    (h : List.Forall₂ (fun a b ↦ a.1 = b.1 ∧ R a.2 b.2) entries entries') :
    entries.map Prod.fst = entries'.map Prod.fst := by
  induction h with
  | nil => rfl
  | cons hhead _ ih => rw [List.map_cons, List.map_cons, hhead.1, ih]

theorem Related.keys_eq {m : SortedMap α} {m' : SortedMap β} (h : m.Related R m') :
    m.keys = m'.keys :=
  keys_eq_of_forall₂ h

theorem rel_lookup_of_forall₂ {entries : List (String × α)} {entries' : List (String × β)}
    (h : List.Forall₂ (fun a b ↦ a.1 = b.1 ∧ R a.2 b.2) entries entries') (key : String) :
    Option.Rel R (entries.lookup key) (entries'.lookup key) := by
  induction h with
  | nil => exact .none
  | @cons head head' rest rest' hhead _ ih =>
    rw [lookup_cons_eq_ite, lookup_cons_eq_ite, hhead.1]
    split
    · exact .some hhead.2
    · exact ih

/-- Related maps say related things of every key. -/
theorem Related.get? {m : SortedMap α} {m' : SortedMap β} (h : m.Related R m') (key : String) :
    Option.Rel R (m.get? key) (m'.get? key) :=
  rel_lookup_of_forall₂ h key

/-- Functions that agree on related values make equal maps. -/
theorem Related.map_eq {γ : Type} {f : α → γ} {g : β → γ} {m : SortedMap α} {m' : SortedMap β}
    (h : m.Related R m') (hR : ∀ a b, R a b → f a = g b) : m.map f = m'.map g := by
  apply eq_of_entries_eq
  change m.entries.map (fun a ↦ (a.1, f a.2)) = m'.entries.map fun b ↦ (b.1, g b.2)
  exact map_eq_of_forall₂ h fun a b hab ↦ Prod.ext hab.1 (hR a.2 b.2 hab.2)

theorem forall₂_insertEntry {key : String} {value : α} {value' : β} (hvalue : R value value')
    {entries : List (String × α)} {entries' : List (String × β)}
    (h : List.Forall₂ (fun a b ↦ a.1 = b.1 ∧ R a.2 b.2) entries entries') :
    List.Forall₂ (fun a b ↦ a.1 = b.1 ∧ R a.2 b.2) (insertEntry key value entries)
      (insertEntry key value' entries') := by
  induction h with
  | nil => exact .cons ⟨rfl, hvalue⟩ .nil
  | @cons head head' rest rest' hhead hrest ih =>
    obtain ⟨k, v⟩ := head
    obtain ⟨k', v'⟩ := head'
    obtain ⟨rfl, hv⟩ : k = k' ∧ R v v' := hhead
    rw [insertEntry, insertEntry]
    split
    · exact .cons ⟨rfl, hvalue⟩ (.cons ⟨rfl, hv⟩ hrest)
    · split
      · exact .cons ⟨rfl, hvalue⟩ hrest
      · exact .cons ⟨rfl, hv⟩ ih

/-- Laying maps over each other does not look at their values. -/
theorem Related.overlay {base top : SortedMap α} {base' top' : SortedMap β}
    (hbase : base.Related R base') (htop : top.Related R top') :
    (base.overlay top).Related R (base'.overlay top') := by
  unfold SortedMap.overlay
  unfold Related at htop
  generalize top.entries = entries at htop
  generalize top'.entries = entries' at htop
  induction htop generalizing base base' with
  | nil => exact hbase
  | @cons head head' rest rest' hhead _ ih =>
    have hinsert : (base.insert head.1 head.2).Related R (base'.insert head'.1 head'.2) := by
      rw [hhead.1]
      exact forall₂_insertEntry hhead.2 hbase
    exact ih hinsert

end Related

/-! ## Fallible steps -/

/-- Adding an entry whose key is above all others puts it last. -/
theorem insertEntry_of_forall_lt {key : String} {value : α} {entries : List (String × α)}
    (h : ∀ entry ∈ entries, entry.1 < key) :
    insertEntry key value entries = entries ++ [(key, value)] := by
  induction entries with
  | nil => rfl
  | cons head rest ih =>
    have hhead : head.1 < key := h head List.mem_cons_self
    have hne : key ≠ head.1 := fun heq ↦ String.lt_irrefl _ (heq ▸ hhead)
    rw [insertEntry, if_neg (String.lt_asymm hhead), if_neg hne,
      ih fun entry hentry ↦ h entry (List.mem_cons_of_mem _ hentry), List.cons_append]

theorem entries_foldl_insert {m : SortedMap α} {entries : List (String × α)}
    (h : (m.entries ++ entries).Pairwise fun a b ↦ a.1 < b.1) :
    (entries.foldl (fun m entry ↦ m.insert entry.1 entry.2) m).entries = m.entries ++ entries := by
  induction entries generalizing m with
  | nil => simp
  | cons head rest ih =>
    have hlast : (m.insert head.1 head.2).entries = m.entries ++ [head] :=
      insertEntry_of_forall_lt fun entry hentry ↦
        (List.pairwise_append.1 h).2.2 entry hentry head List.mem_cons_self
    have hsplit : m.entries ++ [head] ++ rest = m.entries ++ head :: rest := by simp
    rw [List.foldl_cons, ih (by rw [hlast, hsplit]; exact h), hlast, hsplit]

/-- Entries with increasing keys are kept as they are. -/
theorem entries_ofList {entries : List (String × α)}
    (h : entries.Pairwise fun a b ↦ a.1 < b.1) : (ofList entries).entries = entries :=
  @entries_foldl_insert α ∅ entries h

theorem ofList_entries (m : SortedMap α) : ofList m.entries = m :=
  eq_of_entries_eq (entries_ofList m.increasing)

/-- A list of entries that match those of a map makes a map with related values. -/
theorem exists_ofList_eq_iff {R : α → β → Prop} {m : SortedMap α} {result : SortedMap β} :
    (∃ entries, List.Forall₂ (fun a b ↦ a.1 = b.1 ∧ R a.2 b.2) m.entries entries ∧
      ofList entries = result) ↔ m.Related R result := by
  constructor
  · rintro ⟨entries, hrelated, rfl⟩
    have hincreasing : (entries.map Prod.fst).Pairwise (· < ·) := by
      rw [← keys_eq_of_forall₂ hrelated]
      exact List.pairwise_map.2 m.increasing
    rw [Related, entries_ofList (List.pairwise_map.1 hincreasing)]
    exact hrelated
  · intro hrelated
    exact ⟨result.entries, hrelated, ofList_entries result⟩

theorem exists_related_iff {R : α → β → Prop} {m : SortedMap α} :
    (∃ result, m.Related R result) ↔ ∀ key, ∀ a ∈ m.get? key, ∃ b, R a b := by
  have hentry (a : String × α) : (∃ b : String × β, a.1 = b.1 ∧ R a.2 b.2) ↔ ∃ b, R a.2 b :=
    ⟨fun ⟨b, _, hb⟩ ↦ ⟨b.2, hb⟩, fun ⟨b, hb⟩ ↦ ⟨(a.1, b), rfl, hb⟩⟩
  calc
    (∃ result, m.Related R result) ↔
        ∃ entries : List (String × β),
          List.Forall₂ (fun a b ↦ a.1 = b.1 ∧ R a.2 b.2) m.entries entries := by
      simp only [← exists_ofList_eq_iff]
      exact ⟨fun ⟨_, entries, h, _⟩ ↦ ⟨entries, h⟩, fun ⟨entries, h⟩ ↦ ⟨_, entries, h, rfl⟩⟩
    _ ↔ ∀ key a, (key, a) ∈ m.entries → ∃ b, R a b := by
      simp only [exists_forall₂_iff, hentry, Prod.forall]
    _ ↔ ∀ key, ∀ a ∈ m.get? key, ∃ b, R a b := by
      simp only [mem_entries_iff, Option.mem_def]

theorem failsOnly_mapM {P : ε → Prop} {f : α → Except ε β} {m : SortedMap α}
    (h : ∀ entry ∈ m.entries, FailsOnly P (f entry.2)) : FailsOnly P (m.mapM f) := by
  unfold SortedMap.mapM
  have hentries : FailsOnly P (m.entries.mapM fun entry ↦ (entry.1, ·) <$> f entry.2) :=
    .mapM fun entry hentry ↦ (h entry hentry).map _
  exact hentries.map ofList

theorem carriesOver_mapM {f g : α → Except ε β} (h : ∀ a, CarriesOver (f a) (g a))
    (m : SortedMap α) : CarriesOver (m.mapM f) (m.mapM g) := by
  unfold SortedMap.mapM
  have hentry (entry : String × α) : CarriesOver ((entry.1, ·) <$> f entry.2)
      ((entry.1, ·) <$> g entry.2) :=
    (h entry.2).map _
  have hentries := CarriesOver.mapM hentry m.entries
  exact hentries.map ofList

theorem ok_of_mem_mapM {f : α → Except ε β} {m : SortedMap α} {result : SortedMap β}
    (h : m.mapM f = .ok result) (hentry : entry ∈ m.entries) : ∃ value, f entry.2 = .ok value := by
  obtain ⟨entries, hentries, -⟩ := map_eq_ok.1 h
  obtain ⟨mapped, -, hmapped⟩ := Reactor.ok_of_mem_mapM hentries hentry
  obtain ⟨value, hvalue, -⟩ := map_eq_ok.1 hmapped
  exact ⟨value, hvalue⟩

theorem mapM_eq_ok_iff {f : α → Except ε β} {m : SortedMap α} {result : SortedMap β} :
    m.mapM f = .ok result ↔ m.Related (fun a b ↦ f a = .ok b) result := by
  have hentries (entries : List (String × β)) :
      (m.entries.mapM fun entry ↦ (entry.1, ·) <$> f entry.2) = .ok entries ↔
        List.Forall₂ (fun a b ↦ a.1 = b.1 ∧ f a.2 = .ok b.2) m.entries entries := by
    have hentry (a : String × α) (b : String × β) :
        ((a.1, ·) <$> f a.2) = .ok b ↔ a.1 = b.1 ∧ f a.2 = .ok b.2 := by
      rw [map_eq_ok]
      constructor
      · rintro ⟨value, hvalue, rfl⟩
        exact ⟨rfl, hvalue⟩
      · rintro ⟨hkey, hvalue⟩
        exact ⟨b.2, hvalue, Prod.ext hkey rfl⟩
    simp only [mapM_eq_ok, hentry]
  unfold SortedMap.mapM
  simp only [map_eq_ok, hentries]
  exact exists_ofList_eq_iff (R := fun a b ↦ f a = .ok b)

theorem keys_of_mapM {f : α → Except ε β} {m : SortedMap α} {result : SortedMap β}
    (h : m.mapM f = .ok result) : result.keys = m.keys :=
  (mapM_eq_ok_iff.1 h).keys_eq.symm

theorem get?_of_mapM {f : α → Except ε β} {m : SortedMap α} {result : SortedMap β}
    (h : m.mapM f = .ok result) (key : String) (b : β) :
    result.get? key = some b ↔ ∃ a, m.get? key = some a ∧ f a = .ok b := by
  have hget := (mapM_eq_ok_iff.1 h).get? key
  generalize m.get? key = found at hget ⊢
  generalize result.get? key = found' at hget ⊢
  cases hget with
  | none => simp
  | some hb => simp [hb]

end Reactor.SortedMap

import Reactor.Project.PluginMerge
import Reactor.Proofs.SortedMap

/-!
# Merged plugins

What the plugins of several levels are merged to, said without going through the levels one after
the other: one configuration for each id, in the order in which the ids first occur. Each option has
the value that the last configuration to state it states, and so has the skip flag.
-/

namespace Reactor.PluginConfig

variable {α : Type} {plugin other : PluginConfig}
  {plugins merged declared : List PluginConfig} {id : String}
  {stated : PluginConfig → Option α} {value : α}

/-! ## What the configurations of one plugin say -/

def ids (plugins : List PluginConfig) : List String :=
  plugins.map (·.id)

def occurrences (id : String) (plugins : List PluginConfig) : List PluginConfig :=
  plugins.filter (·.id = id)

/-- Whether the last of some configurations to state something states the given value. -/
def LastStated (stated : PluginConfig → Option α) (plugins : List PluginConfig) (value : α) :
    Prop :=
  ∃ earlier last later, plugins = earlier ++ last :: later ∧ stated last = some value ∧
    ∀ other ∈ later, stated other = none

def lastStated? (stated : PluginConfig → Option α) (plugins : List PluginConfig) : Option α :=
  plugins.reverse.findSome? stated

@[simp]
theorem ids_nil : ids [] = [] :=
  rfl

@[simp]
theorem ids_cons (plugin : PluginConfig) (plugins : List PluginConfig) :
    ids (plugin :: plugins) = plugin.id :: ids plugins :=
  rfl

@[simp]
theorem ids_append (plugins others : List PluginConfig) :
    ids (plugins ++ others) = ids plugins ++ ids others :=
  List.map_append

theorem occurrences_append_singleton (id : String) (plugins : List PluginConfig)
    (plugin : PluginConfig) :
    occurrences id (plugins ++ [plugin]) =
      if plugin.id = id then occurrences id plugins ++ [plugin] else occurrences id plugins := by
  unfold occurrences
  rw [List.filter_append]
  by_cases h : plugin.id = id <;> simp [h]

theorem occurrences_eq_nil_iff : occurrences id plugins = [] ↔ id ∉ ids plugins := by
  simp [occurrences, ids]

/-- Whether every merged configuration states something just if an occurrence of its plugin does,
and then what the last of those states. -/
def KeepsLast (stated : PluginConfig → Option α) (declared merged : List PluginConfig) : Prop :=
  ∀ plugin ∈ merged, ∀ value, stated plugin = some value ↔
    LastStated stated (occurrences plugin.id declared) value

theorem lastStated?_append_singleton (plugins : List PluginConfig) (plugin : PluginConfig) :
    lastStated? stated (plugins ++ [plugin]) = (stated plugin).or (lastStated? stated plugins) := by
  rw [lastStated?, List.reverse_append, List.reverse_singleton, List.singleton_append,
    List.findSome?_cons]
  cases stated plugin <;> rfl

theorem lastStated?_eq_none_iff :
    lastStated? stated plugins = none ↔ ∀ plugin ∈ plugins, stated plugin = none := by
  simp [lastStated?]

theorem lastStated?_eq_some_iff :
    lastStated? stated plugins = some value ↔ LastStated stated plugins value := by
  unfold lastStated? LastStated
  rw [List.findSome?_eq_some_iff]
  constructor
  · rintro ⟨later, last, earlier, hplugins, hlast, hlater⟩
    refine ⟨earlier.reverse, last, later.reverse, ?_, hlast, by simpa using hlater⟩
    rw [← List.reverse_inj, hplugins]
    simp
  · rintro ⟨earlier, last, later, rfl, hlast, hlater⟩
    exact ⟨later.reverse, last, earlier.reverse, by simp, hlast, by simpa using hlater⟩

theorem keepsLast_iff : KeepsLast stated declared merged ↔
    ∀ plugin ∈ merged, stated plugin = lastStated? stated (occurrences plugin.id declared) := by
  refine forall₂_congr fun plugin _ ↦ ?_
  rw [Option.ext_iff]
  simp only [lastStated?_eq_some_iff]

/-! ## Adding one configuration -/

theorem ids_mergeInto (plugin : PluginConfig) (merged : List PluginConfig) :
    ids (mergeInto plugin merged) =
      if plugin.id ∈ ids merged then ids merged else ids merged ++ [plugin.id] := by
  induction merged with
  | nil => rfl
  | cons first rest ih =>
    rw [mergeInto]
    by_cases hfirst : first.id = plugin.id
    · simp [hfirst, overlay]
    · rw [if_neg hfirst, ids_cons, ih]
      by_cases hrest : plugin.id ∈ ids rest <;> simp [hrest, Ne.symm hfirst]

/-- A plugin that was not seen before goes to the end. -/
theorem mergeInto_of_notMem (h : plugin.id ∉ ids merged) :
    mergeInto plugin merged = merged ++ [plugin] := by
  induction merged with
  | nil => rfl
  | cons first rest ih =>
    rw [ids_cons, List.mem_cons, not_or] at h
    rw [mergeInto, if_neg (Ne.symm h.1), ih h.2, List.cons_append]

/-- Where the configurations come from after one was added: the others stay, and the one with the
same id, if there is one, has the added one laid over it. -/
theorem mem_mergeInto (hnodup : (ids merged).Nodup) (h : other ∈ mergeInto plugin merged) :
    (other ∈ merged ∧ other.id ≠ plugin.id) ∨
      (∃ base ∈ merged, base.id = plugin.id ∧ other = base.overlay plugin) ∨
      (plugin.id ∉ ids merged ∧ other = plugin) := by
  induction merged with
  | nil => exact .inr (.inr ⟨by simp, by simpa [mergeInto] using h⟩)
  | cons first rest ih =>
    obtain ⟨hfirst, hrest⟩ := List.nodup_cons.1 hnodup
    rw [mergeInto] at h
    by_cases hsame : first.id = plugin.id
    · rw [if_pos hsame, List.mem_cons] at h
      rcases h with rfl | hother
      · exact .inr (.inl ⟨first, List.mem_cons_self, hsame, rfl⟩)
      · refine .inl ⟨List.mem_cons_of_mem _ hother, fun hid ↦ hfirst ?_⟩
        exact List.mem_map.2 ⟨other, hother, hid.trans hsame.symm⟩
    · rw [if_neg hsame, List.mem_cons] at h
      rcases h with rfl | hother
      · exact .inl ⟨List.mem_cons_self, hsame⟩
      · rcases ih hrest hother with ⟨hmem, hid⟩ | ⟨base, hbase, hid, heq⟩ | ⟨hnew, heq⟩
        · exact .inl ⟨List.mem_cons_of_mem _ hmem, hid⟩
        · exact .inr (.inl ⟨base, List.mem_cons_of_mem _ hbase, hid, heq⟩)
        · exact .inr (.inr ⟨by simp [hnew, Ne.symm hsame], heq⟩)

/-! ## Merged configurations -/

/-- What it means that some configurations are merged to others. -/
structure IsMergeOf (declared merged : List PluginConfig) : Prop where
  /-- No id occurs twice. -/
  nodup : (ids merged).Nodup
  /-- The ids are those that occur. -/
  mem_ids_iff : ∀ id, id ∈ ids merged ↔ id ∈ ids declared
  /-- The ids are in the order of their first occurrences. -/
  order : (ids merged).Pairwise fun id next ↦ (ids declared).idxOf id < (ids declared).idxOf next
  /-- An option has the value that it has in the last occurrence of the plugin with this option. -/
  option : ∀ key, KeepsLast (·.options.get? key) declared merged
  /-- The skip flag is that of the last occurrence of the plugin with a flag. -/
  skip : KeepsLast (·.skip) declared merged

namespace IsMergeOf

theorem eq_of_id_eq {merged' : List PluginConfig} (h : IsMergeOf declared merged)
    (h' : IsMergeOf declared merged') (hplugin : plugin ∈ merged) (hother : other ∈ merged')
    (hid : plugin.id = other.id) : plugin = other := by
  have hoptions : plugin.options = other.options := by
    ext key value
    rw [h.option key plugin hplugin, h'.option key other hother, hid]
  have hskip : plugin.skip = other.skip := by
    ext flag
    rw [h.skip plugin hplugin, h'.skip other hother, hid]
  cases plugin
  cases other
  simp only at hid hoptions hskip
  subst hid hoptions hskip
  rfl

/-- Configurations are merged in one way only. -/
theorem unique {merged' : List PluginConfig} (h : IsMergeOf declared merged)
    (h' : IsMergeOf declared merged') : merged = merged' := by
  have hirreflexive : Std.Irrefl fun plugin next : PluginConfig ↦
      (ids declared).idxOf plugin.id < (ids declared).idxOf next.id :=
    ⟨fun plugin ↦ Nat.lt_irrefl _⟩
  have hantisymmetric : Std.Antisymm fun plugin next : PluginConfig ↦
      (ids declared).idxOf plugin.id < (ids declared).idxOf next.id :=
    ⟨fun plugin next hlt hgt ↦ absurd hgt (Nat.lt_asymm hlt)⟩
  have hsubset {first second : List PluginConfig} (hfirst : IsMergeOf declared first)
      (hsecond : IsMergeOf declared second) {plugin : PluginConfig} (hplugin : plugin ∈ first) :
      plugin ∈ second := by
    have hid : plugin.id ∈ ids first := List.mem_map_of_mem hplugin
    rw [hfirst.mem_ids_iff, ← hsecond.mem_ids_iff] at hid
    obtain ⟨other, hother, hsame⟩ := List.mem_map.1 hid
    rwa [hfirst.eq_of_id_eq hsecond hplugin hother hsame.symm]
  have horder := List.pairwise_map.1 h.order
  have horder' := List.pairwise_map.1 h'.order
  apply horder.eq_of_mem_iff horder'
  intro plugin
  exact ⟨hsubset h h', hsubset h' h⟩

end IsMergeOf

/-! ## What merging preserves -/

/-- Adding one configuration keeps the ids in the order of their first occurrences. -/
theorem order_mergeInto (hmem : ∀ id, id ∈ ids merged ↔ id ∈ ids declared)
    (horder : (ids merged).Pairwise fun id next ↦
      (ids declared).idxOf id < (ids declared).idxOf next) (plugin : PluginConfig) :
    (ids (mergeInto plugin merged)).Pairwise fun id next ↦
      (ids (declared ++ [plugin])).idxOf id < (ids (declared ++ [plugin])).idxOf next := by
  have hold {id : String} (hid : id ∈ ids merged) :
      (ids (declared ++ [plugin])).idxOf id = (ids declared).idxOf id := by
    rw [ids_append]
    exact List.idxOf_append_of_mem ((hmem id).1 hid)
  have hkept : (ids merged).Pairwise fun id next ↦
      (ids (declared ++ [plugin])).idxOf id < (ids (declared ++ [plugin])).idxOf next := by
    refine horder.imp_of_mem fun hid hnext hlt ↦ ?_
    rwa [hold hid, hold hnext]
  rw [ids_mergeInto]
  split
  · exact hkept
  · rename_i hnew
    refine List.pairwise_append.2 ⟨hkept, List.pairwise_singleton _ _, fun id hid next hnext ↦ ?_⟩
    obtain rfl := List.mem_singleton.1 hnext
    have hlast : (ids (declared ++ [plugin])).idxOf plugin.id = (ids declared).length := by
      rw [ids_append, List.idxOf_append_of_notMem (mt (hmem plugin.id).2 hnew)]
      simp
    rw [hold hid, hlast]
    exact List.idxOf_lt_length_of_mem ((hmem id).1 hid)

/-- Adding one configuration keeps what was stated last, if a configuration that is laid over
another one hides what that one states. -/
theorem KeepsLast.mergeInto (h : KeepsLast stated declared merged)
    (hoverlay : ∀ base top, stated (overlay base top) = (stated top).or (stated base))
    (hnodup : (ids merged).Nodup) (hmem : ∀ id, id ∈ ids merged ↔ id ∈ ids declared)
    (plugin : PluginConfig) :
    KeepsLast stated (declared ++ [plugin]) (mergeInto plugin merged) := by
  rw [keepsLast_iff] at h ⊢
  intro other hother
  rw [occurrences_append_singleton]
  rcases mem_mergeInto hnodup hother with ⟨hold, hne⟩ | ⟨base, hbase, hid, rfl⟩ | ⟨hnew, rfl⟩
  · rw [if_neg (Ne.symm hne), h other hold]
  · have hsame : (base.overlay plugin).id = base.id := rfl
    rw [hsame, if_pos hid.symm, lastStated?_append_singleton, hoverlay, h base hbase]
  · have hnone : occurrences other.id declared = [] :=
      occurrences_eq_nil_iff.2 (mt (hmem other.id).2 hnew)
    rw [if_pos rfl, lastStated?_append_singleton, hnone]
    exact Option.or_none.symm

theorem mem_ids_mergeInto : id ∈ ids (mergeInto plugin merged) ↔
    id ∈ ids merged ∨ id = plugin.id := by
  rw [ids_mergeInto]
  split
  · rename_i hold
    constructor
    · exact .inl
    · rintro (hid | rfl)
      · exact hid
      · exact hold
  · simp

/-- What one more configuration does to merged ones. -/
theorem IsMergeOf.mergeInto (h : IsMergeOf declared merged) (plugin : PluginConfig) :
    IsMergeOf (declared ++ [plugin]) (mergeInto plugin merged) := by
  have horder := order_mergeInto h.mem_ids_iff h.order plugin
  refine ⟨?_, fun id ↦ ?_, horder, fun key ↦ ?_, ?_⟩
  · apply horder.imp
    rintro id _ hlt rfl
    exact Nat.lt_irrefl _ hlt
  · simp [mem_ids_mergeInto, h.mem_ids_iff]
  · exact (h.option key).mergeInto (fun base top ↦ SortedMap.get?_overlay _ _ key) h.nodup
      h.mem_ids_iff plugin
  · exact h.skip.mergeInto (fun base top ↦ rfl) h.nodup h.mem_ids_iff plugin

theorem isMergeOf_nil : IsMergeOf [] [] :=
  ⟨List.nodup_nil, fun _ ↦ Iff.rfl, .nil, fun _ ↦ by rintro _ ⟨⟩, by rintro _ ⟨⟩⟩

def accumulate (merged plugins : List PluginConfig) : List PluginConfig :=
  plugins.foldl (fun merged plugin ↦ PluginConfig.mergeInto plugin merged) merged

theorem merge_eq_accumulate (levels : List (List PluginConfig)) :
    merge levels = accumulate [] levels.flatten :=
  rfl

theorem accumulate_append (merged plugins others : List PluginConfig) :
    accumulate merged (plugins ++ others) = accumulate (accumulate merged plugins) others :=
  List.foldl_append

theorem isMergeOf_accumulate (declared : List PluginConfig) :
    IsMergeOf declared (accumulate [] declared) := by
  induction declared using List.reverseRecOn with
  | nil => exact isMergeOf_nil
  | append_singleton declared plugin ih =>
    rw [accumulate_append]
    exact ih.mergeInto plugin

/-- Merging gives just the configurations described above. An option or a flag is there if any
occurrence of the plugin has it. -/
theorem merge_eq_iff_isMergeOf (levels : List (List PluginConfig)) :
    (∀ merged, merge levels = merged ↔ IsMergeOf levels.flatten merged) ∧
      ∀ plugin ∈ merge levels,
        (∀ key, key ∈ plugin.options.keys ↔
          ∃ occurrence ∈ occurrences plugin.id levels.flatten, key ∈ occurrence.options.keys) ∧
        (plugin.skip = none ↔
          ∀ occurrence ∈ occurrences plugin.id levels.flatten, occurrence.skip = none) := by
  have hmerge : IsMergeOf levels.flatten (merge levels) := isMergeOf_accumulate levels.flatten
  refine ⟨fun merged ↦ ⟨fun h ↦ h ▸ hmerge, hmerge.unique⟩, fun plugin hplugin ↦ ⟨fun key ↦ ?_, ?_⟩⟩
  · have hoption := keepsLast_iff.1 (hmerge.option key) plugin hplugin
    rw [SortedMap.mem_keys_iff, hoption, ← not_iff_not, Bool.not_eq_true,
      Option.isSome_eq_false_iff, Option.isNone_iff_eq_none, lastStated?_eq_none_iff]
    simp [SortedMap.mem_keys_iff]
  · rw [keepsLast_iff.1 hmerge.skip plugin hplugin, lastStated?_eq_none_iff]

/-- Two levels. The upper one lists a plugin twice, and the lower one empties a nested option. -/
def compilerLevels : List (List PluginConfig) :=
  [[⟨"compiler", SortedMap.ofList [("flags", .mapping [("debug", .bool true)]),
        ("release", .string "11")], none⟩,
      ⟨"deploy", ∅, some true⟩,
      ⟨"compiler", SortedMap.ofList [("encoding", .string "UTF-8")], some true⟩],
    [⟨"site", ∅, none⟩,
      ⟨"deploy", ∅, none⟩,
      ⟨"compiler", SortedMap.ofList [("flags", .mapping [])], some false⟩]]

def mergedCompiler : PluginConfig :=
  ⟨"compiler", SortedMap.ofList [("encoding", .string "UTF-8"), ("flags", .mapping []),
    ("release", .string "11")], some false⟩

theorem merge_compilerLevels :
    merge compilerLevels = [mergedCompiler, ⟨"deploy", ∅, some true⟩, ⟨"site", ∅, none⟩] ∧
      IsMergeOf compilerLevels.flatten (merge compilerLevels) ∧
      mergedCompiler ∈ merge compilerLevels ∧
      ∃ occurrence ∈ occurrences "compiler" compilerLevels.flatten,
        "encoding" ∈ occurrence.options.keys := by
  obtain ⟨hmerge, hplugins⟩ := merge_eq_iff_isMergeOf compilerLevels
  have hcompiler : mergedCompiler ∈ merge compilerLevels := List.mem_cons_self
  obtain ⟨hkeys, -⟩ := hplugins mergedCompiler hcompiler
  exact ⟨rfl, (hmerge _).1 rfl, hcompiler, (hkeys "encoding").1 (by decide)⟩

end Reactor.PluginConfig

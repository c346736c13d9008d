import Reactor.Proofs.Descriptor.Loaded
import Reactor.Proofs.Project.HashedText
import Reactor.Proofs.Value.Ordered

/-!
# Descriptors that are written and read again

A descriptor is written as a document with all its fields, in a fixed order. Reading brings names
and references into a form in which reading them again changes nothing: without blanks at the ends
of names, with global properties already below the declared ones, and with skip flags beside the
options of plugins. So the value that the document denotes is read as the same descriptor.
-/

namespace Reactor

/-! ## Fields that need not be there -/

namespace Value

variable {α : Type}

/-- The field of a mapping for a value that need not be stated. -/
def optional (key : String) (f : α → Value) (value : Option α) : List (String × Value) :=
  (value.map fun a ↦ (key, f a)).toList

def ofFields (fields : List (String × Value)) : Value :=
  .mapping (SortedMap.ofList fields).entries

@[simp]
theorem get?_ofList_append (fields fields' : List (String × Value)) (key : String) :
    (SortedMap.ofList (fields ++ fields')).get? key =
      ((SortedMap.ofList fields').get? key).or ((SortedMap.ofList fields).get? key) := by
  simp only [SortedMap.get?_ofList, List.reverse_append, List.lookup_append]

@[simp]
theorem get?_ofList_optional (key other : String) (f : α → Value) (value : Option α) :
    (SortedMap.ofList (optional key f value)).get? other =
      if other = key then value.map f else none := by
  cases value with
  | none => simp [optional, SortedMap.get?_ofList]
  | some a =>
    simp only [optional, Option.map_some, Option.toList_some, SortedMap.get?_ofList,
      List.reverse_singleton, SortedMap.lookup_cons_eq_ite, List.lookup_nil]

@[simp]
theorem get?_ofList_cons (key other : String) (value : Value) (fields : List (String × Value)) :
    (SortedMap.ofList ((key, value) :: fields)).get? other =
      ((SortedMap.ofList fields).get? other).or (if other = key then some value else none) := by
  simp only [SortedMap.get?_ofList, List.reverse_cons, List.lookup_append,
    SortedMap.lookup_cons_eq_ite, List.lookup_nil]

@[simp]
theorem get?_ofList_nil (key : String) :
    (SortedMap.ofList ([] : List (String × Value))).get? key = none :=
  rfl

end Value

namespace Json

variable {α : Type}

theorem DenotesFields.append {entries entries' : List (String × Json)}
    {fields fields' : List (String × Value)} (h : DenotesFields entries fields)
    (h' : DenotesFields entries' fields') :
    DenotesFields (entries ++ entries') (fields ++ fields') :=
  List.rel_append h h'

theorem denotesFields_singleton (key : String) {document : Json} {value : Value}
    (h : Denotes document value) : DenotesFields [(key, document)] [(key, value)] :=
  .cons ⟨rfl, h⟩ .nil

theorem denotesFields_optional (key : String) {f : α → Json} {g : α → Value} {value : Option α}
    (h : ∀ a ∈ value, Denotes (f a) (g a)) :
    DenotesFields (optional key f value) (Value.optional key g value) := by
  cases value with
  | none => exact .nil
  | some a => exact denotesFields_singleton key (h a rfl)

theorem denotesFields_optional_string (key : String) (text : Option String) :
    DenotesFields (optional key Json.string text) (Value.optional key .string text) :=
  denotesFields_optional key fun text _ ↦ denotes_string text

end Json

/-! ## The value that is written -/

section Fields

open Value (optional)

def ParentRef.fields (ref : ParentRef) : List (String × Value) :=
  optional "groupId" .string ref.groupId ++ [("artifactId", Value.string ref.artifactId)] ++
    optional "version" .string ref.version ++ optional "relativePath" .string ref.relativePath

def PluginConfig.fields (plugin : PluginConfig) : List (String × Value) :=
  ("id", .string plugin.id) ::
    (optional "options" (fun options ↦ .mapping options.entries) plugin.statedOptions? ++
      optional "skip" .bool plugin.skip)

def Descriptor.fields (d : Descriptor) : List (String × Value) :=
  optional "modelVersion" .string d.modelVersion ++ optional "groupId" .string d.groupId ++
    [("artifactId", Value.string d.artifactId)] ++ optional "version" .string d.version ++
    [("packaging", Value.string d.packaging.name)] ++
    optional "parent" (fun ref ↦ .ofFields ref.fields) d.parentRef ++
    [("properties", Value.mapping (d.properties.map Value.string).entries),
      ("modules", Value.sequence (d.modules.map .string)),
      ("plugins", Value.sequence (d.plugins.map fun plugin ↦ .ofFields plugin.fields)),
      ("location", Value.string d.location)]

end Fields

def Descriptor.toValue (d : Descriptor) : Value :=
  .ofFields d.fields

theorem ParentRef.denotes (ref : ParentRef) : Json.Denotes ref.toJson (.ofFields ref.fields) := by
  apply Json.denotes_object
  refine .append (.append (.append ?groupId ?artifactId) ?version) ?relativePath
  case artifactId => exact Json.denotesFields_singleton _ (Json.denotes_string ref.artifactId)
  all_goals exact Json.denotesFields_optional_string _ _

/-- Whether the options of a plugin are values in key order. -/
def PluginConfig.IsOrdered (plugin : PluginConfig) : Prop :=
  ∀ entry ∈ plugin.options.entries, entry.2.IsOrdered

theorem PluginConfig.denotes {plugin : PluginConfig} (h : plugin.IsOrdered) :
    Json.Denotes plugin.toJson (.ofFields plugin.fields) := by
  have hoptions : ∀ options ∈ plugin.statedOptions?,
      Json.Denotes (optionsToJson options) (.mapping options.entries) := by
    intro options hoptions
    obtain rfl := eq_of_statedOptions? hoptions
    have hdenotes := (Value.IsOrdered.mapping plugin.options.increasing h).denotes
    rw [Value.toJson, Value.entriesToJson_eq_map] at hdenotes
    exact hdenotes
  rw [toJson_eq, List.append_nil]
  apply Json.denotes_object
  refine .cons ⟨rfl, Json.denotes_string plugin.id⟩ (Json.DenotesFields.append ?options ?skip)
  case options => exact Json.denotesFields_optional _ hoptions
  case skip => exact Json.denotesFields_optional _ fun skip _ ↦ Json.denotes_bool skip

theorem Json.denotes_strings (items : List String) :
    Denotes (strings items) (.sequence (items.map .string)) :=
  denotes_array (List.forall₂_map_left_iff.2
    (List.forall₂_map_right_iff.2 (List.forall₂_same.2 fun text _ ↦ denotes_string text)))

theorem Json.denotes_stringMap (m : SortedMap String) :
    Denotes (stringMap m) (.mapping (m.map Value.string).entries) := by
  have hordered : ∀ entry ∈ (m.map Value.string).entries, entry.2.IsOrdered :=
    List.forall_mem_map.2 fun entry _ ↦ .string entry.2
  have hdenotes := (Value.IsOrdered.mapping (m.map Value.string).increasing hordered).denotes
  have hentries : ((m.map Value.string).entries.map fun entry ↦ (entry.1, entry.2.toJson)) =
      (m.map Json.string).entries :=
    List.map_map
  rw [Value.toJson, Value.entriesToJson_eq_map, hentries] at hdenotes
  exact hdenotes

/-- The document of a descriptor denotes its value. -/
theorem Descriptor.denotes {d : Descriptor} (h : ∀ plugin ∈ d.plugins, plugin.IsOrdered) :
    Json.Denotes d.toJson d.toValue := by
  have hplugins : Json.Denotes (.array (d.plugins.map PluginConfig.toJson))
      (.sequence (d.plugins.map fun plugin ↦ .ofFields plugin.fields)) :=
    Json.denotes_array (List.forall₂_map_left_iff.2 (List.forall₂_map_right_iff.2
      (List.forall₂_same.2 fun plugin hplugin ↦ PluginConfig.denotes (h plugin hplugin))))
  apply Json.denotes_object
  refine .append (.append (.append (.append (.append (.append ?modelVersion ?groupId) ?artifactId)
    ?version) ?packaging) ?parent) ?others
  case artifactId => exact Json.denotesFields_singleton _ (Json.denotes_string d.artifactId)
  case packaging => exact Json.denotesFields_singleton _ (Json.denotes_string d.packaging.name)
  case parent => exact Json.denotesFields_optional _ fun ref _ ↦ ref.denotes
  case others =>
    exact .cons ⟨rfl, Json.denotes_stringMap d.properties⟩
      (.cons ⟨rfl, Json.denotes_strings d.modules⟩
        (.cons ⟨rfl, hplugins⟩ (Json.denotesFields_singleton _ (Json.denotes_string d.location))))
  all_goals exact Json.denotesFields_optional_string _ _

/-! ## The value that is read again -/

section Read

open Descriptor

/-- What a field that need not be there is read as. -/
theorem rel_map_of_mem {α : Type} {R : Value → α → Prop} {f : α → Value} {value : Option α}
    (h : ∀ a ∈ value, R (f a) a) : Option.Rel R (value.map f) value := by
  cases value with
  | none => exact .none
  | some a => exact .some (h a rfl)

theorem ParentRef.readParent_fields {ref : ParentRef} (h : ref.IsLoaded) :
    readParent (.ofFields ref.fields) = .ok ref := by
  have hpart {part : Option String} (hpart : ∀ text ∈ part, IsLoadedName text) :
      Option.Rel (fun value text ↦ nonBlankString? value = some text) (part.map .string) part :=
    rel_map_of_mem hpart
  have hartifactId : nonBlankString? (.string ref.artifactId) = some ref.artifactId := h.artifactId
  rw [Value.ofFields, readParent_mapping_eq_ok_iff, SortedMap.ofList_entries]
  simp [readParentPart_eq_ok_iff, fields, hpart h.groupId, hartifactId, hpart h.version,
    hpart h.relativePath]

theorem PluginConfig.options_of_statedOptions?_eq_none {plugin : PluginConfig}
    (h : plugin.statedOptions? = none) : plugin.options = ∅ := by
  unfold statedOptions? at h
  split at h
  case isTrue hempty => exact SortedMap.eq_of_entries_eq (List.isEmpty_iff.1 hempty)
  case isFalse => cases h

theorem PluginConfig.readOptions_fields (plugin : PluginConfig) :
    readOptions plugin.id (SortedMap.ofList plugin.fields) = .ok plugin.options := by
  have hoptions : (SortedMap.ofList plugin.fields).get? "options" =
      plugin.statedOptions?.map fun options ↦ .mapping options.entries := by
    simp [fields]
  rw [readOptions_eq_ok_iff, hoptions]
  cases hstated : plugin.statedOptions? with
  | none => exact .inl ⟨rfl, options_of_statedOptions?_eq_none hstated⟩
  | some options =>
    refine .inr ⟨options.entries, rfl, ?_⟩
    rw [SortedMap.ofList_entries, eq_of_statedOptions? hstated]

theorem PluginConfig.readPlugin_fields {plugin : PluginConfig} (h : plugin.IsLoaded) :
    readPlugin 0 (.ofFields plugin.fields) = .ok plugin := by
  have hid : nonBlankString? (.string plugin.id) = some plugin.id := h.id
  have hskip : Option.Rel (fun value flag ↦ readSkip plugin.id value = .ok flag)
      (plugin.skip.map .bool) plugin.skip :=
    rel_map_of_mem fun flag _ ↦ rfl
  rw [Value.ofFields, readPlugin_mapping_eq_ok_iff, SortedMap.ofList_entries]
  refine ⟨by simp [fields, hid], plugin.options, plugin.readOptions_fields, ?_, ?_⟩
  · rw [SortedMap.erase_of_get?_eq_none h.noSkip]
  · simp [fields, h.noSkip, hskip]

/-- A loaded descriptor is read from the value that its document denotes. -/
theorem Descriptor.ofValue_toValue {globals : SortedMap String} {location : String} {d : Descriptor}
    (h : d.IsLoaded globals location) : ofValue globals location d.toValue = .ok d := by
  refine ofValue_eq_ok_iff.2 ⟨_, rfl, ?_⟩
  rw [SortedMap.ofList_entries, ofFields_eq_ok_iff]
  refine ⟨?_, ?_, ?_, ⟨d.properties, ?_, ?_⟩, ?_, h.allowed, ?_, ?_, ?_, ?_, h.location⟩
  · have hname : nonBlankString? (.string d.artifactId) = some d.artifactId := h.artifactId
    simp [readArtifactId_eq_ok_iff, fields, hname]
  · simp [readPackaging_eq_ok_iff, fields]
  · have hparent : Option.Rel (fun value ref ↦ readParent value = .ok ref)
        (d.parentRef.map fun ref ↦ .ofFields ref.fields) d.parentRef :=
      rel_map_of_mem fun ref href ↦ ParentRef.readParent_fields (h.parentRef ref href)
    simp [readParent?_eq_ok_iff, fields, hparent]
  · have hproperties : (d.properties.map Value.string).Related
        (fun value text ↦ value.scalarText? = some text) d.properties :=
      List.forall₂_map_left_iff.2 (List.forall₂_same.2 fun entry _ ↦ ⟨rfl, rfl⟩)
    simp [readProperties_eq_ok_iff, fields, SortedMap.ofList_entries, hproperties]
  · split
    case isTrue hnone => exact (h.globals (Option.isNone_iff_eq_none.1 hnone)).symm
    case isFalse => rfl
  · have hmodules : ∀ name ∈ d.modules, nonBlankString? (.string name) = some name := h.modules
    simpa [readModules_eq_ok_iff, fields, h.distinctModules] using hmodules
  · simp [optionalString_eq_ok_iff, fields]
  · simp [optionalString_eq_ok_iff, fields]
  · simp [optionalString_eq_ok_iff, fields]
  · have hplugins : ∀ plugin ∈ d.plugins, readPlugin 0 (.ofFields plugin.fields) = .ok plugin :=
      fun plugin hplugin ↦ PluginConfig.readPlugin_fields (h.plugins plugin hplugin)
    simpa [readPlugins_eq_ok_iff, fields, h.distinctPlugins] using hplugins

end Read

/-! ## Options of plugins -/

namespace Value

def pluginOptions (value : Value) : List Value :=
  match value.field? "plugins" with
  | some (.sequence items) => items.filterMap (field? "options")
  | _ => []

theorem mem_of_lookup_reverse {entries : List (String × Value)} {key : String} {value : Value}
    (h : entries.reverse.lookup key = some value) : (key, value) ∈ entries := by
  rw [← SortedMap.get?_ofList] at h
  exact SortedMap.mem_ofList (SortedMap.mem_entries_iff.2 h)

theorem IsOrdered.field? {value field : Value} {key : String} (h : value.IsOrdered)
    (hfield : value.field? key = some field) : field.IsOrdered := by
  cases h with
  | mapping _ hentries => exact hentries _ (mem_of_lookup_reverse hfield)
  | _ => cases hfield

theorem IsOrdered.pluginOptions {value : Value} (h : value.IsOrdered) :
    ∀ options ∈ value.pluginOptions, options.IsOrdered := by
  unfold Value.pluginOptions
  split
  case h_1 items hitems =>
    intro options hoptions
    obtain ⟨item, hitem, hfield⟩ := List.mem_filterMap.1 hoptions
    cases h.field? hitems with
    | sequence hitems => exact (hitems item hitem).field? hfield
  case h_2 => exact List.forall_mem_nil _

end Value

namespace Descriptor

theorem exists_options_of_readPlugin {index : Nat} {value : Value} {plugin : PluginConfig}
    (h : readPlugin index value = .ok plugin) {entry : String × Value}
    (hentry : entry ∈ plugin.options.entries) :
    ∃ entries, value.field? "options" = some (.mapping entries) ∧ entry ∈ entries := by
  obtain ⟨fields, rfl⟩ := exists_entries_of_readPlugin h
  obtain ⟨-, options, hoptions, herase, -⟩ := readPlugin_mapping_eq_ok_iff.1 h
  have hmem : entry ∈ options.entries := by
    rw [herase] at hentry
    exact List.mem_of_mem_filter hentry
  rw [field?_mapping]
  rcases readOptions_eq_ok_iff.1 hoptions with ⟨-, rfl⟩ | ⟨entries, hfield, rfl⟩
  · exact absurd hmem List.not_mem_nil
  · exact ⟨entries, hfield, SortedMap.mem_ofList hmem⟩

/-- The options of the plugins of a descriptor come from the value that it was read from. -/
theorem exists_pluginOptions_of_ofValue {globals : SortedMap String} {location : String}
    {value : Value} {d : Descriptor} (h : ofValue globals location value = .ok d)
    {plugin : PluginConfig} (hplugin : plugin ∈ d.plugins) {entry : String × Value}
    (hentry : entry ∈ plugin.options.entries) :
    ∃ entries, .mapping entries ∈ value.pluginOptions ∧ entry ∈ entries := by
  obtain ⟨fields, rfl, hfields⟩ := ofValue_eq_ok_iff.1 h
  obtain ⟨-, -, -, -, -, -, -, -, -, hplugins, -⟩ := ofFields_eq_ok_iff.1 hfields
  rcases readPlugins_eq_ok_iff.1 hplugins with ⟨-, hnil⟩ | ⟨items, hitems, hrelated, -⟩
  · rw [hnil] at hplugin
    exact absurd hplugin List.not_mem_nil
  · obtain ⟨item, hitem, hread⟩ := exists_of_forall₂ hrelated.flip hplugin
    obtain ⟨entries, hfield, hmem⟩ := exists_options_of_readPlugin hread hentry
    refine ⟨entries, ?_, hmem⟩
    rw [← field?_mapping] at hitems
    rw [Value.pluginOptions, hitems]
    exact List.mem_filterMap.2 ⟨item, hitem, hfield⟩

theorem isOrdered_of_ofValue {globals : SortedMap String} {location : String} {value : Value}
    {d : Descriptor} (hordered : value.IsOrdered) (h : ofValue globals location value = .ok d) :
    ∀ plugin ∈ d.plugins, plugin.IsOrdered := by
  intro plugin hplugin entry hentry
  obtain ⟨entries, hoptions, hmem⟩ := exists_pluginOptions_of_ofValue h hplugin hentry
  cases hordered.pluginOptions _ hoptions with
  | mapping _ hentries => exact hentries entry hmem

theorem isFloatFree_of_ofValue {globals : SortedMap String} {location : String} {value : Value}
    {d : Descriptor} (hfloats : ∀ options ∈ value.pluginOptions, options.FloatFree)
    (h : ofValue globals location value = .ok d) : ∀ plugin ∈ d.plugins, plugin.IsFloatFree := by
  intro plugin hplugin entry hentry
  obtain ⟨entries, hoptions, hmem⟩ := exists_pluginOptions_of_ofValue h hplugin hentry
  cases hfloats _ hoptions with
  | mapping hentries => exact hentries entry hmem

end Descriptor

end Reactor

import Reactor.Proofs.Descriptor.WellFormed

/-!
# The form of loaded descriptors

Reading brings the parts of a descriptor into a form: names have no blanks at their ends and are
not blank, module names and plugin ids differ, no skip flag stays among the options of a plugin, and
the properties of a descriptor without a parent include the global ones.
-/

namespace Reactor

open Descriptor

/-- Whether a text is read as the name that it is. -/
def IsLoadedName (text : String) : Prop :=
  nonBlank? text = some text

theorem isLoadedName_of_nonBlank? {text name : String} (h : nonBlank? text = some name) :
    IsLoadedName name := by
  obtain ⟨hblank, rfl⟩ := nonBlank?_eq_some_iff.1 h
  exact nonBlank?_eq_some_iff.2 ⟨by rw [Text.isBlankText_trim, hblank], Text.trim_trim text⟩

theorem isLoadedName_of_nonBlankString? {value : Value} {name : String}
    (h : nonBlankString? value = some name) : IsLoadedName name := by
  obtain ⟨text, rfl, -⟩ := nonBlankString?_eq_some_iff.1 h
  exact isLoadedName_of_nonBlank? h

/-- The form of the parent references that are read. -/
structure ParentRef.IsLoaded (ref : ParentRef) : Prop where
  groupId : ∀ text ∈ ref.groupId, IsLoadedName text
  artifactId : IsLoadedName ref.artifactId
  version : ∀ text ∈ ref.version, IsLoadedName text
  relativePath : ∀ text ∈ ref.relativePath, IsLoadedName text

theorem ParentRef.isLoaded_of_ofCoordinates? {text : String} {ref : ParentRef}
    (h : ofCoordinates? text = some ref) : ref.IsLoaded := by
  obtain ⟨hmade, hblank⟩ := ofCoordinates?_eq_some_iff.1 h
  have hparts : ∀ part ∈ (Text.split ':' text).map Text.trim, IsLoadedName part := by
    intro part hpart
    obtain ⟨whole, hwhole, rfl⟩ := List.mem_map.1 hpart
    exact isLoadedName_of_nonBlank? (nonBlank?_eq_some_iff.2 ⟨hblank whole hwhole, rfl⟩)
  generalize (Text.split ':' text).map Text.trim = parts at hparts hmade
  cases hmade with
  | artifact artifactId => exact ⟨nofun, hparts artifactId (by simp), nofun, nofun⟩
  | group groupId artifactId =>
    have hgroupId := hparts groupId (by simp)
    exact ⟨fun _ h ↦ Option.some.inj h ▸ hgroupId, hparts artifactId (by simp), nofun, nofun⟩
  | version groupId artifactId version =>
    have hgroupId := hparts groupId (by simp)
    have hversion := hparts version (by simp)
    exact ⟨fun _ h ↦ Option.some.inj h ▸ hgroupId, hparts artifactId (by simp),
      fun _ h ↦ Option.some.inj h ▸ hversion, nofun⟩

theorem loaded_of_readParentPart {fields : Fields} {key : String} {part : Option String}
    (h : readParentPart fields key = .ok part) : ∀ text ∈ part, IsLoadedName text := by
  rintro text rfl
  obtain ⟨value, -, hname⟩ := exists_of_rel_some (readParentPart_eq_ok_iff.1 h)
  exact isLoadedName_of_nonBlankString? hname

theorem ParentRef.isLoaded_of_readParent {value : Value} {ref : ParentRef}
    (h : readParent value = .ok ref) : ref.IsLoaded := by
  cases value with
  | string text => exact isLoaded_of_ofCoordinates? (readParent_string_eq_ok_iff.1 h)
  | mapping entries =>
    obtain ⟨hartifactId, hgroupId, hversion, hrelativePath⟩ := readParent_mapping_eq_ok_iff.1 h
    exact ⟨loaded_of_readParentPart hgroupId, loaded_of_readParentPart hartifactId _ rfl,
      loaded_of_readParentPart hversion, loaded_of_readParentPart hrelativePath⟩
  | _ => cases h

theorem loaded_of_readModules {fields : Fields} {names : List String}
    (h : readModules fields = .ok names) : (∀ name ∈ names, IsLoadedName name) ∧ names.Nodup := by
  rcases readModules_eq_ok_iff.1 h with ⟨-, rfl⟩ | ⟨items, -, hitems, hnodup⟩
  · exact ⟨List.forall_mem_nil _, List.nodup_nil⟩
  · refine ⟨fun name hname ↦ ?_, hnodup⟩
    obtain ⟨item, -, hitem⟩ := exists_of_forall₂ hitems.flip hname
    exact isLoadedName_of_nonBlankString? hitem

/-- The form of the plugin configurations that are read. -/
structure PluginConfig.IsLoaded (plugin : PluginConfig) : Prop where
  id : IsLoadedName plugin.id
  noSkip : plugin.options.get? "skip" = none

theorem PluginConfig.isLoaded_of_readPlugin {index : Nat} {value : Value} {plugin : PluginConfig}
    (h : readPlugin index value = .ok plugin) : plugin.IsLoaded := by
  obtain ⟨entries, rfl⟩ := exists_entries_of_readPlugin h
  obtain ⟨hid, options, -, hoptions, -⟩ := readPlugin_mapping_eq_ok_iff.1 h
  obtain ⟨value, -, hname⟩ := Option.bind_eq_some_iff.1 hid
  refine ⟨isLoadedName_of_nonBlankString? hname, ?_⟩
  rw [hoptions, SortedMap.get?_erase_self]

theorem loaded_of_readPlugins {fields : Fields} {plugins : List PluginConfig}
    (h : readPlugins fields = .ok plugins) :
    (∀ plugin ∈ plugins, plugin.IsLoaded) ∧ (plugins.map (·.id)).Nodup := by
  rcases readPlugins_eq_ok_iff.1 h with ⟨-, rfl⟩ | ⟨items, -, hitems, hnodup⟩
  · exact ⟨List.forall_mem_nil _, List.nodup_nil⟩
  · refine ⟨fun plugin hplugin ↦ ?_, hnodup⟩
    obtain ⟨item, -, hitem⟩ := exists_of_forall₂ hitems.flip hplugin
    exact PluginConfig.isLoaded_of_readPlugin hitem

/-- The form of the descriptors that a loader reads at a location. -/
structure Descriptor.IsLoaded (globals : SortedMap String) (location : String) (d : Descriptor) :
    Prop where
  artifactId : IsLoadedName d.artifactId
  parentRef : ∀ ref ∈ d.parentRef, ref.IsLoaded
  globals : d.parentRef = none → globals.overlay d.properties = d.properties
  modules : ∀ name ∈ d.modules, IsLoadedName name
  distinctModules : d.modules.Nodup
  allowed : d.modules = [] ∨ d.packaging.allowsModules = true
  plugins : ∀ plugin ∈ d.plugins, plugin.IsLoaded
  distinctPlugins : (d.plugins.map (·.id)).Nodup
  location : d.location = location

theorem Descriptor.isLoaded_of_ofValue {globals : SortedMap String} {location : String}
    {value : Value} {d : Descriptor} (h : ofValue globals location value = .ok d) :
    d.IsLoaded globals location := by
  obtain ⟨entries, -, hfields⟩ := ofValue_eq_ok_iff.1 h
  obtain ⟨hartifactId, -, hparentRef, ⟨declared, -, hproperties⟩, hmodules, hallowed, -, -, -,
    hplugins, hlocation⟩ := ofFields_eq_ok_iff.1 hfields
  constructor
  case artifactId =>
    obtain ⟨value, -, hname⟩ := Option.bind_eq_some_iff.1 (readArtifactId_eq_ok_iff.1 hartifactId)
    exact isLoadedName_of_nonBlankString? hname
  case parentRef =>
    intro ref href
    have hrel := readParent?_eq_ok_iff.1 hparentRef
    rw [href] at hrel
    obtain ⟨value, -, hvalue⟩ := exists_of_rel_some hrel
    exact ParentRef.isLoaded_of_readParent hvalue
  case globals =>
    intro hnone
    rw [hproperties, hnone]
    exact SortedMap.overlay_overlay_self globals declared
  case modules => exact (loaded_of_readModules hmodules).1
  case distinctModules => exact (loaded_of_readModules hmodules).2
  case allowed => exact hallowed
  case plugins => exact (loaded_of_readPlugins hplugins).1
  case distinctPlugins => exact (loaded_of_readPlugins hplugins).2
  case location => exact hlocation

end Reactor

import Reactor.Proofs.Descriptor.Readers
import Reactor.Proofs.Text.Split

/-!
# Which values are descriptors

The readers of a descriptor check one field after the other. Together they accept exactly the
mappings that are described here without any reader, by what stands under each key. Whether a field
is accepted depends on no other field, with one exception: only some packagings allow modules.
-/

namespace Reactor

/-- One, two or three parts with a colon between them, none of which is blank. -/
def ParentRef.IsCoordinates (text : String) : Prop :=
  ∃ parts : List String, text = ":".intercalate parts ∧ parts.length ∈ [1, 2, 3] ∧
    ∀ part ∈ parts, ':' ∉ part.toList ∧ Text.isBlankText part = false

theorem ParentRef.isCoordinates_iff_split {text : String} :
    IsCoordinates text ↔ (Text.split ':' text).length ∈ [1, 2, 3] ∧
      ∀ part ∈ Text.split ':' text, Text.isBlankText part = false := by
  constructor
  · rintro ⟨parts, htext, hlength, hparts⟩
    have hne : parts ≠ [] := by
      rintro rfl
      simp at hlength
    have hsplit : Text.split ':' text = parts :=
      Text.split_eq_iff.2 ⟨htext, hne, fun part hpart ↦ (hparts part hpart).1⟩
    rw [hsplit]
    exact ⟨hlength, fun part hpart ↦ (hparts part hpart).2⟩
  · rintro ⟨hlength, hparts⟩
    obtain ⟨htext, -, hcolon⟩ := Text.split_eq_iff.1 (Eq.refl (Text.split ':' text))
    exact ⟨_, htext, hlength, fun part hpart ↦ ⟨hcolon part hpart, hparts part hpart⟩⟩

namespace Value

/-- The value under a key of a mapping. Of several entries with this key the last one counts. -/
def field? (key : String) : Value → Option Value
  | mapping entries => entries.reverse.lookup key
  | _ => none

/-- The name that a string stands for. The blanks at its ends are not part of it. -/
def name? : Value → Option String
  | string text => some (Text.trim text)
  | _ => none

def IsString (value : Value) : Prop :=
  ∃ text, value = .string text

/-- A string that is not blank. -/
def IsName (value : Value) : Prop :=
  ∃ text, value = .string text ∧ Text.isBlankText text = false

def IsMapping (value : Value) : Prop :=
  ∃ entries, value = .mapping entries

def IsScalar (value : Value) : Prop :=
  value.kind ≠ .sequence ∧ value.kind ≠ .mapping

/-- A boolean, or a string that spells one. -/
def IsFlag (value : Value) : Prop :=
  (∃ flag, value = .bool flag) ∨ value = .string "true" ∨ value = .string "false"

/-- A parent is given in short form or part by part. -/
def IsParent (value : Value) : Prop :=
  (∃ text, value = .string text ∧ ParentRef.IsCoordinates text) ∨
    value.IsMapping ∧ (∃ artifactId ∈ value.field? "artifactId", artifactId.IsName) ∧
      ∀ key ∈ ["groupId", "version", "relativePath"], ∀ part ∈ value.field? key, part.IsName

def IsProperties (value : Value) : Prop :=
  value.IsMapping ∧ ∀ name, ∀ property ∈ value.field? name, property.IsScalar

/-- Modules are listed by distinct names. -/
def IsModules (value : Value) : Prop :=
  ∃ items, value = .sequence items ∧ (∀ item ∈ items, item.IsName) ∧ (items.map name?).Nodup

/-- The flag beside the options of a plugin, or the one among them if there is none beside them. -/
def skipField? (value : Value) : Option Value :=
  (value.field? "skip").or ((value.field? "options").bind (field? "skip"))

structure IsPlugin (value : Value) : Prop where
  mapping : value.IsMapping
  id : ∃ id ∈ value.field? "id", id.IsName
  options : ∀ options ∈ value.field? "options", options.IsMapping
  skip : ∀ skip ∈ value.skipField?, skip.IsFlag

/-- Plugins are listed with distinct ids. -/
def IsPlugins (value : Value) : Prop :=
  ∃ items, value = .sequence items ∧ (∀ item ∈ items, item.IsPlugin) ∧
    (items.map fun item ↦ (item.field? "id").bind name?).Nodup

def descriptorKeys : List String :=
  ["modelVersion", "groupId", "artifactId", "version", "packaging", "parent", "properties",
    "modules", "plugins"]

/-- A mapping with an artifact id, in which every other field that means something is well formed
if it is there. -/
structure IsDescriptor (value : Value) : Prop where
  mapping : value.IsMapping
  artifactId : ∃ artifactId ∈ value.field? "artifactId", artifactId.IsName
  packaging : ∀ packaging ∈ value.field? "packaging",
    ∃ name ∈ ["jar", "pom", "war", "ear", "maven-plugin", "bundle"], packaging = .string name
  strings : ∀ key ∈ ["modelVersion", "groupId", "version"], ∀ text ∈ value.field? key, text.IsString
  parent : ∀ parent ∈ value.field? "parent", parent.IsParent
  properties : ∀ properties ∈ value.field? "properties", properties.IsProperties
  modules : ∀ modules ∈ value.field? "modules", modules.IsModules
  /-- No other packaging has modules. -/
  pom : value.field? "packaging" = some (.string "pom") ∨
    ∀ modules ∈ value.field? "modules", modules = .sequence []
  plugins : ∀ plugins ∈ value.field? "plugins", plugins.IsPlugins

end Value

namespace Descriptor

open Value

variable {fields : Fields} {value : Value} {key : String}

theorem field?_mapping (key : String) (entries : List (String × Value)) :
    field? key (.mapping entries) = (SortedMap.ofList entries).get? key :=
  (SortedMap.get?_ofList entries key).symm

/-! ## Strings -/

theorem exists_optionalString_iff : (∃ text, optionalString fields key = .ok text) ↔
    ∀ value ∈ fields.get? key, value.IsString := by
  simp only [optionalString_eq_ok_iff]
  constructor
  · rintro ⟨text, htext⟩ value hvalue
    obtain ⟨text, -, rfl⟩ := Option.map_eq_some_iff.1 (htext.symm.trans hvalue)
    exact ⟨text, rfl⟩
  · intro h
    cases hvalue : fields.get? key with
    | none => exact ⟨none, rfl⟩
    | some value =>
      obtain ⟨text, rfl⟩ := h value hvalue
      exact ⟨some text, rfl⟩

theorem exists_nonBlankString?_iff :
    (∃ name, nonBlankString? value = some name) ↔ value.IsName := by
  simp only [nonBlankString?_eq_some_iff]
  constructor
  · rintro ⟨_, text, rfl, htext, -⟩
    exact ⟨text, rfl, htext⟩
  · rintro ⟨text, rfl, htext⟩
    exact ⟨_, text, rfl, htext, rfl⟩

theorem name?_of_nonBlankString? {name : String} (h : nonBlankString? value = some name) :
    value.name? = some name := by
  obtain ⟨text, rfl, -, rfl⟩ := nonBlankString?_eq_some_iff.1 h
  rfl

theorem exists_bind_nonBlankString?_iff {found : Option Value} :
    (∃ name, found.bind nonBlankString? = some name) ↔ ∃ value ∈ found, value.IsName := by
  simp only [Option.bind_eq_some_iff, ← exists_nonBlankString?_iff]
  exact ⟨fun ⟨name, value, h⟩ ↦ ⟨value, h.1, name, h.2⟩,
    fun ⟨value, h, name, hname⟩ ↦ ⟨name, value, h, hname⟩⟩

theorem exists_readArtifactId_iff : (∃ artifactId, readArtifactId fields = .ok artifactId) ↔
    ∃ artifactId ∈ fields.get? "artifactId", artifactId.IsName := by
  simp only [readArtifactId_eq_ok_iff]
  exact exists_bind_nonBlankString?_iff

theorem exists_readPackaging_iff : (∃ packaging, readPackaging fields = .ok packaging) ↔
    ∀ packaging ∈ fields.get? "packaging", ∃ name ∈ ["jar", "pom", "war", "ear", "maven-plugin",
      "bundle"], packaging = .string name := by
  have hnames : ["jar", "pom", "war", "ear", "maven-plugin", "bundle"] =
      Packaging.all.map Packaging.name := rfl
  have hall (packaging : Packaging) : packaging ∈ Packaging.all := by cases packaging <;> decide
  simp only [readPackaging_eq_ok_iff, hnames, List.mem_map]
  cases fields.get? "packaging" <;> simp [hall]

theorem allowsModules_iff_of_readPackaging {packaging : Packaging}
    (h : readPackaging fields = .ok packaging) :
    packaging.allowsModules = true ↔ fields.get? "packaging" = some (.string "pom") := by
  rcases readPackaging_eq_ok_iff.1 h with ⟨hfield, rfl⟩ | hfield
  · rw [hfield]
    decide
  · rw [hfield]
    cases packaging <;> simp [Packaging.allowsModules, Packaging.name]

/-! ## The parent -/

theorem exists_ofCoordinates?_iff {text : String} :
    (∃ ref, ParentRef.ofCoordinates? text = some ref) ↔ ParentRef.IsCoordinates text := by
  simp only [ParentRef.isCoordinates_iff_split, ParentRef.ofCoordinates?_eq_some_iff,
    exists_and_right, ParentRef.exists_isMadeOf_iff, List.length_map]

theorem exists_readParentPart_iff : (∃ part, readParentPart fields key = .ok part) ↔
    ∀ part ∈ fields.get? key, part.IsName := by
  simp only [readParentPart_eq_ok_iff, exists_rel_iff, exists_nonBlankString?_iff, Option.mem_def]

theorem exists_readParentPart_some_iff : (∃ text, readParentPart fields key = .ok (some text)) ↔
    ∃ part ∈ fields.get? key, part.IsName := by
  simp only [readParentPart_eq_ok_iff, ← exists_nonBlankString?_iff]
  cases fields.get? key <;> simp

theorem exists_readParent_iff : (∃ ref, readParent value = .ok ref) ↔ value.IsParent := by
  unfold IsParent IsMapping
  cases value with
  | string text => simp [readParent_string_eq_ok_iff, exists_ofCoordinates?_iff]
  | mapping entries =>
    simp only [readParent_mapping_eq_ok_iff, field?_mapping, List.forall_mem_cons,
      ← exists_readParentPart_some_iff, ← exists_readParentPart_iff, reduceCtorEq, false_and,
      exists_false, false_or, mapping.injEq, exists_eq', true_and, List.not_mem_nil]
    constructor
    · rintro ⟨ref, hartifactId, hgroupId, hversion, hrelativePath⟩
      exact ⟨⟨_, hartifactId⟩, ⟨_, hgroupId⟩, ⟨_, hversion⟩, ⟨_, hrelativePath⟩, by simp⟩
    · rintro ⟨⟨artifactId, hartifactId⟩, ⟨groupId, hgroupId⟩, ⟨version, hversion⟩,
        ⟨relativePath, hrelativePath⟩, -⟩
      exact ⟨⟨groupId, artifactId, version, relativePath⟩, hartifactId, hgroupId, hversion,
        hrelativePath⟩
  | _ => simp [readParent]

theorem exists_readParent?_iff : (∃ parentRef, readParent? fields = .ok parentRef) ↔
    ∀ parent ∈ fields.get? "parent", parent.IsParent := by
  simp only [readParent?_eq_ok_iff, exists_rel_iff, exists_readParent_iff, Option.mem_def]

/-! ## Properties -/

theorem exists_scalarText?_iff : (∃ text, value.scalarText? = some text) ↔ value.IsScalar := by
  unfold IsScalar
  cases value with
  | bool flag => cases flag <;> simp [scalarText?, kind]
  | _ => simp [scalarText?, kind]

theorem exists_readProperties_iff : (∃ properties, readProperties fields = .ok properties) ↔
    ∀ properties ∈ fields.get? "properties", properties.IsProperties := by
  simp only [readProperties_eq_ok_iff]
  cases fields.get? "properties" with
  | none => simp
  | some value =>
    unfold IsProperties IsMapping
    cases value <;> simp [field?_mapping, SortedMap.exists_related_iff, exists_scalarText?_iff]

/-! ## Modules -/

theorem exists_readModules_iff : (∃ names, readModules fields = .ok names) ↔
    ∀ modules ∈ fields.get? "modules", modules.IsModules := by
  simp only [readModules_eq_ok_iff]
  cases fields.get? "modules" with
  | none => simp
  | some value =>
    unfold IsModules
    cases value with
    | sequence items =>
      have hitems := exists_forall₂_nodup_iff (g := id)
        (fun item name (h : nonBlankString? item = some name) ↦ name?_of_nonBlankString? h) items
      simpa [exists_nonBlankString?_iff] using hitems
    | _ => simp

theorem eq_nil_iff_of_readModules {names : List String} (h : readModules fields = .ok names) :
    names = [] ↔ ∀ modules ∈ fields.get? "modules", modules = .sequence [] := by
  rcases readModules_eq_ok_iff.1 h with ⟨hfield, rfl⟩ | ⟨items, hfield, hnames, -⟩
  · simp [hfield]
  · cases hnames <;> simp [hfield]

/-! ## Plugins -/

theorem exists_readSkip_iff (id : String) :
    (∃ flag, readSkip id value = .ok flag) ↔ value.IsFlag := by
  simp only [readSkip_eq_ok_iff, exists_or]
  unfold IsFlag
  simp [or_comm]

theorem exists_readOptions_iff (id : String) :
    (∃ options, readOptions id fields = .ok options) ↔
      ∀ options ∈ fields.get? "options", options.IsMapping := by
  simp only [readOptions_eq_ok_iff]
  cases fields.get? "options" <;> simp [IsMapping]

theorem get?_skip_of_readOptions {id : String} {options : Fields}
    (h : readOptions id fields = .ok options) :
    options.get? "skip" = (fields.get? "options").bind (field? "skip") := by
  rcases readOptions_eq_ok_iff.1 h with ⟨hfield, rfl⟩ | ⟨entries, hfield, rfl⟩
  · rw [hfield]
    rfl
  · rw [hfield, Option.bind_some, field?_mapping]

theorem exists_readPlugin_iff : (∃ plugin, readPlugin 0 value = .ok plugin) ↔ value.IsPlugin := by
  constructor
  · rintro ⟨plugin, h⟩
    obtain ⟨entries, rfl⟩ := exists_entries_of_readPlugin h
    obtain ⟨hid, options, hoptions, -, hskip⟩ := readPlugin_mapping_eq_ok_iff.1 h
    rw [get?_skip_of_readOptions hoptions] at hskip
    simp only [← field?_mapping] at hid hskip
    refine ⟨⟨entries, rfl⟩, exists_bind_nonBlankString?_iff.1 ⟨_, hid⟩, ?_, ?_⟩
    · rw [field?_mapping]
      exact (exists_readOptions_iff plugin.id).1 ⟨_, hoptions⟩
    · intro skip hfield
      exact (exists_readSkip_iff plugin.id).1 (exists_rel_iff.1 ⟨_, hskip⟩ skip hfield)
  · rintro ⟨⟨entries, rfl⟩, hid, hoptions, hskip⟩
    obtain ⟨id, hid⟩ := exists_bind_nonBlankString?_iff.2 hid
    rw [field?_mapping] at hid hoptions
    obtain ⟨options, hoptions⟩ := (exists_readOptions_iff id).2 hoptions
    obtain ⟨flag, hflag⟩ := exists_rel_iff.2 fun skip hfield ↦
      (exists_readSkip_iff id).2 (hskip skip hfield)
    refine ⟨⟨id, options.erase "skip", flag⟩,
      readPlugin_mapping_eq_ok_iff.2 ⟨hid, options, hoptions, rfl, ?_⟩⟩
    rw [get?_skip_of_readOptions hoptions]
    simp only [← field?_mapping]
    exact hflag

theorem id_of_readPlugin {plugin : PluginConfig} (h : readPlugin 0 value = .ok plugin) :
    (value.field? "id").bind name? = some plugin.id := by
  obtain ⟨entries, rfl⟩ := exists_entries_of_readPlugin h
  have hid := (readPlugin_mapping_eq_ok_iff.1 h).1
  rw [← field?_mapping] at hid
  obtain ⟨id, hfield, hid⟩ := Option.bind_eq_some_iff.1 hid
  rw [hfield, Option.bind_some, name?_of_nonBlankString? hid]

theorem exists_readPlugins_iff : (∃ plugins, readPlugins fields = .ok plugins) ↔
    ∀ plugins ∈ fields.get? "plugins", plugins.IsPlugins := by
  simp only [readPlugins_eq_ok_iff]
  cases fields.get? "plugins" with
  | none => simp
  | some value =>
    unfold IsPlugins
    cases value with
    | sequence items =>
      have hitems := exists_forall₂_nodup_iff
        (fun item plugin (h : readPlugin 0 item = .ok plugin) ↦ id_of_readPlugin h) items
      simpa [exists_readPlugin_iff] using hitems
    | _ => simp

/-! ## Descriptors -/

theorem exists_ofFields_iff {globals : SortedMap String} {location : String}
    {entries : List (String × Value)} :
    (∃ d, ofFields globals location (SortedMap.ofList entries) = .ok d) ↔
      (mapping entries).IsDescriptor := by
  constructor
  · rintro ⟨d, h⟩
    obtain ⟨hartifactId, hpackaging, hparentRef, ⟨declared, hdeclared, -⟩, hmodules, hallowed,
      hmodelVersion, hgroupId, hversion, hplugins, -⟩ := ofFields_eq_ok_iff.1 h
    constructor
    case mapping => exact ⟨entries, rfl⟩
    all_goals simp only [field?_mapping]
    case artifactId => exact exists_readArtifactId_iff.1 ⟨_, hartifactId⟩
    case packaging => exact exists_readPackaging_iff.1 ⟨_, hpackaging⟩
    case strings =>
      simp only [List.forall_mem_cons, ← exists_optionalString_iff]
      exact ⟨⟨_, hmodelVersion⟩, ⟨_, hgroupId⟩, ⟨_, hversion⟩, by simp⟩
    case parent => exact exists_readParent?_iff.1 ⟨_, hparentRef⟩
    case properties => exact exists_readProperties_iff.1 ⟨_, hdeclared⟩
    case modules => exact exists_readModules_iff.1 ⟨_, hmodules⟩
    case pom =>
      rw [← allowsModules_iff_of_readPackaging hpackaging, ← eq_nil_iff_of_readModules hmodules]
      exact hallowed.symm
    case plugins => exact exists_readPlugins_iff.1 ⟨_, hplugins⟩
  · rintro ⟨-, hartifactId, hpackaging, hstrings, hparent, hproperties, hmodules, hpom, hplugins⟩
    simp only [field?_mapping, List.forall_mem_cons, ← exists_optionalString_iff]
      at hartifactId hpackaging hstrings hparent hproperties hmodules hpom hplugins
    obtain ⟨artifactId, hartifactId⟩ := exists_readArtifactId_iff.2 hartifactId
    obtain ⟨packaging, hpackaging⟩ := exists_readPackaging_iff.2 hpackaging
    obtain ⟨parentRef, hparentRef⟩ := exists_readParent?_iff.2 hparent
    obtain ⟨declared, hdeclared⟩ := exists_readProperties_iff.2 hproperties
    obtain ⟨modules, hmodules⟩ := exists_readModules_iff.2 hmodules
    obtain ⟨⟨modelVersion, hmodelVersion⟩, ⟨groupId, hgroupId⟩, ⟨version, hversion⟩, -⟩ := hstrings
    obtain ⟨plugins, hplugins⟩ := exists_readPlugins_iff.2 hplugins
    rw [← allowsModules_iff_of_readPackaging hpackaging, ← eq_nil_iff_of_readModules hmodules]
      at hpom
    let properties := if parentRef.isNone then globals.overlay declared else declared
    refine ⟨⟨modelVersion, groupId, artifactId, version, packaging, parentRef, properties, modules,
      plugins, location⟩, ofFields_eq_ok_iff.2 ?_⟩
    exact ⟨hartifactId, hpackaging, hparentRef, ⟨declared, hdeclared, rfl⟩, hmodules, hpom.symm,
      hmodelVersion, hgroupId, hversion, hplugins, rfl⟩

/-- Fields under other keys change nothing. -/
theorem ofFields_congr {globals : SortedMap String} {location : String} {fields fields' : Fields}
    (h : ∀ key ∈ descriptorKeys, fields.get? key = fields'.get? key) :
    ofFields globals location fields = ofFields globals location fields' := by
  simp only [descriptorKeys, List.forall_mem_cons] at h
  obtain ⟨hmodelVersion, hgroupId, hartifactId, hversion, hpackaging, hparent, hproperties,
    hmodules, hplugins, -⟩ := h
  unfold ofFields readArtifactId readPackaging readParent? readProperties readModules readPlugins
    optionalString
  rw [hmodelVersion, hgroupId, hartifactId, hversion, hpackaging, hparent, hproperties, hmodules,
    hplugins]

/-- The values that are read as descriptors are the well-formed ones. Fields that mean nothing do
not matter to what is read. -/
theorem ofValue_isOk_iff (globals : SortedMap String) (location : String) (value : Value) :
    ((∃ d, ofValue globals location value = .ok d) ↔ value.IsDescriptor) ∧
      ∀ value', value.IsMapping → value'.IsMapping →
        (∀ key ∈ descriptorKeys, value'.field? key = value.field? key) →
          ofValue globals location value' = ofValue globals location value := by
  constructor
  · simp only [ofValue_eq_ok_iff]
    constructor
    · rintro ⟨d, entries, rfl, h⟩
      exact exists_ofFields_iff.1 ⟨d, h⟩
    · intro h
      obtain ⟨entries, rfl⟩ := h.mapping
      obtain ⟨d, hd⟩ := exists_ofFields_iff.2 h
      exact ⟨d, entries, rfl, hd⟩
  · rintro value' ⟨entries, rfl⟩ ⟨entries', rfl⟩ hfields
    simp only [field?_mapping] at hfields
    rw [ofValue_mapping, ofValue_mapping, ofFields_congr hfields]

/-- The fields of a project that aggregates two modules and skips a plugin. -/
def aggregatorFields : List (String × Value) :=
  [("artifactId", .string " tools "),
    ("modules", .sequence [.string "cli", .string " lib"]),
    ("packaging", .string "pom"),
    ("parent", .string "org: root"),
    ("plugins", .sequence [.mapping [("id", .string "jar"),
      ("options", .mapping [("level", .integer 3), ("skip", .string "true")])]])]

/-- A comment makes no difference to them. -/
theorem ofValue_commented :
    ((mapping (aggregatorFields ++ [("comment", .bool true)])).IsMapping ∧
      (mapping aggregatorFields).IsMapping ∧
      ∀ key ∈ descriptorKeys, (mapping (aggregatorFields ++ [("comment", .bool true)])).field? key =
        (mapping aggregatorFields).field? key) ∧
      (mapping aggregatorFields).IsDescriptor ∧
      ofValue ∅ "/w/project.json" (mapping (aggregatorFields ++ [("comment", .bool true)])) =
        ofValue ∅ "/w/project.json" (mapping aggregatorFields) := by
  have hfields : ∀ key ∈ descriptorKeys,
      (mapping (aggregatorFields ++ [("comment", .bool true)])).field? key =
        (mapping aggregatorFields).field? key := by
    intro key hkey
    have hkey : key ≠ "comment" := by
      rintro rfl
      revert hkey
      decide
    rw [field?, field?, List.reverse_append, List.reverse_singleton, List.singleton_append,
      SortedMap.lookup_cons_eq_ite, if_neg hkey]
  have hdescriptor := ofValue_isOk_iff ∅ "/w/project.json" (mapping aggregatorFields)
  refine ⟨⟨⟨_, rfl⟩, ⟨_, rfl⟩, hfields⟩, hdescriptor.1.1 ⟨_, rfl⟩, ?_⟩
  exact hdescriptor.2 _ ⟨_, rfl⟩ ⟨_, rfl⟩ hfields

end Descriptor

end Reactor

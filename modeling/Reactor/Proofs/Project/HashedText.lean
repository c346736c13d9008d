import Reactor.Project.Basic
import Reactor.Proofs.SortedMap
import Reactor.Proofs.Value.ToJson

/-!
# The text that a fingerprint is taken of

A fingerprint is a digest of the compact text of a project. The text leaves out what a project does
not state, and it tells ancestors by their ids only, but nothing else is lost: two projects without
floating-point options have the same text exactly if they agree in every field that is written.
-/

namespace Reactor

/-! ## Parts of documents -/

namespace SortedMap

variable {α β : Type}

theorem map_injective {f : α → β} (hf : Function.Injective f) :
    Function.Injective (SortedMap.map f) := by
  intro m m' h
  have hentry : Function.Injective fun entry : String × α ↦ (entry.1, f entry.2) := by
    intro entry entry' hsame
    obtain ⟨hkey, hvalue⟩ := Prod.mk.inj hsame
    exact Prod.ext hkey (hf hvalue)
  apply eq_of_entries_eq
  exact List.map_injective_iff.2 hentry (congrArg SortedMap.entries h)

end SortedMap

namespace Json

theorem string_injective : Function.Injective Json.string := by
  intro s s' h
  exact Json.string.inj h

theorem strings_inj {items items' : List String} :
    strings items = strings items' ↔ items = items' := by
  rw [strings, strings, Json.array.injEq, (List.map_injective_iff.2 string_injective).eq_iff]

theorem stringMap_inj {m m' : SortedMap String} : stringMap m = stringMap m' ↔ m = m' := by
  rw [stringMap, stringMap, Json.object.injEq]
  constructor
  · intro h
    exact SortedMap.map_injective string_injective (SortedMap.eq_of_entries_eq h)
  · rintro rfl
    rfl

/-! ### Optional entries -/

section Optional

variable {α : Type} {key : String} {f : α → Json} {value value' : Option α}
  {entries entries' : List (String × Json)}

/-- The entry of an object for a value that need not be stated. -/
def optional (key : String) (f : α → Json) (value : Option α) : List (String × Json) :=
  (value.map fun a ↦ (key, f a)).toList

theorem entry?_eq (key : String) (value : Option String) :
    entry? key value = optional key Json.string value :=
  rfl

theorem notMem_keys_optional {other : String} (hne : key ≠ other) :
    key ∉ (optional other f value).map Prod.fst := by
  cases value <;> simp [optional, hne]

/-- An optional entry is told from the entries after it by its key. -/
theorem optional_append_inj (hf : Function.Injective f) (hkey : key ∉ entries.map Prod.fst)
    (hkey' : key ∉ entries'.map Prod.fst) :
    optional key f value ++ entries = optional key f value' ++ entries' ↔
      value = value' ∧ entries = entries' := by
  cases value with
  | none =>
    cases value' with
    | none => simp [optional]
    | some a' =>
      have hne : entries ≠ (key, f a') :: entries' := by
        rintro rfl
        simp at hkey
      simpa [optional] using hne
  | some a =>
    cases value' with
    | none =>
      have hne : (key, f a) :: entries ≠ entries' := by
        rintro rfl
        simp at hkey'
      simpa [optional] using hne
    | some a' => simp [optional, hf.eq_iff]

theorem forall_mem_optional {P : Json → Prop} (h : ∀ a ∈ value, P (f a)) :
    ∀ entry ∈ optional key f value, P entry.2 := by
  cases value with
  | none => simp [optional]
  | some a => simpa [optional] using h a rfl

end Optional

theorem isExact_strings (items : List String) : (strings items).IsExact :=
  .array (List.forall_mem_map.2 fun text _ ↦ .string text)

theorem isExact_stringMap (m : SortedMap String) : (stringMap m).IsExact :=
  .object (List.forall_mem_map.2 fun entry _ ↦ .string entry.2)

theorem isExact_of_mem_entry? (key : String) (text : Option String) :
    ∀ entry ∈ entry? key text, entry.2.IsExact :=
  forall_mem_optional fun text _ ↦ .string text

end Json

theorem Packaging.name_injective : Function.Injective Packaging.name := by
  intro packaging packaging' h
  have hof := congrArg Packaging.ofName? h
  rw [ofName?_name, ofName?_name] at hof
  exact Option.some.inj hof

/-! ## Plugins -/

namespace PluginConfig

/-- Whether the options of a plugin hold no floating-point number. -/
def IsFloatFree (plugin : PluginConfig) : Prop :=
  ∀ entry ∈ plugin.options.entries, entry.2.FloatFree

def statedOptions? (plugin : PluginConfig) : Option (SortedMap Value) :=
  if plugin.options.isEmpty then none else some plugin.options

def optionsToJson (options : SortedMap Value) : Json :=
  .object (options.map Value.toJson).entries

theorem toJson_eq (plugin : PluginConfig) : plugin.toJson =
    .object (("id", .string plugin.id) ::
      (Json.optional "options" optionsToJson plugin.statedOptions? ++
        (Json.optional "skip" Json.bool plugin.skip ++ []))) := by
  rw [toJson, statedOptions?]
  split <;> simp [Json.optional, optionsToJson]

theorem optionsToJson_injective : Function.Injective optionsToJson := by
  intro options options' h
  apply SortedMap.map_injective Value.toJson_injective
  exact SortedMap.eq_of_entries_eq (Json.object.inj h)

theorem statedOptions?_eq_iff {plugin plugin' : PluginConfig} :
    plugin.statedOptions? = plugin'.statedOptions? ↔ plugin.options = plugin'.options := by
  constructor
  · intro h
    unfold statedOptions? at h
    split at h
    case isTrue hempty =>
      split at h
      case isTrue hempty' =>
        apply SortedMap.eq_of_entries_eq
        rw [List.isEmpty_iff.1 hempty, List.isEmpty_iff.1 hempty']
      case isFalse => cases h
    case isFalse =>
      split at h
      case isTrue => cases h
      case isFalse => exact Option.some.inj h
  · intro h
    rw [statedOptions?, statedOptions?, h]

/-- Neither empty options nor an unset flag can be taken for anything else. -/
theorem toJson_injective : Function.Injective toJson := by
  intro plugin plugin' h
  rw [toJson_eq, toJson_eq, Json.object.injEq, List.cons.injEq, Prod.mk.injEq, Json.string.injEq,
    Json.optional_append_inj optionsToJson_injective (by simp [Json.notMem_keys_optional])
      (by simp [Json.notMem_keys_optional]),
    Json.optional_append_inj (fun _ _ ↦ Json.bool.inj) List.not_mem_nil List.not_mem_nil,
    statedOptions?_eq_iff] at h
  obtain ⟨⟨-, hid⟩, hoptions, hskip, -⟩ := h
  cases plugin
  cases plugin'
  cases hid
  cases hoptions
  cases hskip
  rfl

theorem eq_of_statedOptions? {plugin : PluginConfig} {options : SortedMap Value}
    (h : plugin.statedOptions? = some options) : plugin.options = options := by
  unfold statedOptions? at h
  split at h
  · cases h
  · exact Option.some.inj h

theorem IsFloatFree.isExact {plugin : PluginConfig} (h : plugin.IsFloatFree) :
    plugin.toJson.IsExact := by
  have hoptions : ∀ options ∈ plugin.statedOptions?, (optionsToJson options).IsExact := by
    intro options hoptions
    obtain rfl := eq_of_statedOptions? hoptions
    exact .object (List.forall_mem_map.2 fun entry hentry ↦ (h entry hentry).isExact)
  have hskip : ∀ skip ∈ plugin.skip, (Json.bool skip).IsExact := fun skip _ ↦ .bool skip
  rw [toJson_eq]
  apply Json.IsExact.object
  simp only [List.forall_mem_cons, List.forall_mem_append]
  exact ⟨.string plugin.id, Json.forall_mem_optional hoptions, Json.forall_mem_optional hskip,
    List.forall_mem_nil _⟩

end PluginConfig

/-! ## Projects -/

namespace Project

variable {project project' : Project}

/-- Whether the options of the effective plugins hold no floating-point number. -/
def IsFloatFree (project : Project) : Prop :=
  ∀ plugin ∈ project.effectivePlugins, plugin.IsFloatFree

/-- Two projects are written as the same document if they agree in all fields that are written. -/
theorem toJson_eq_toJson_iff : project.toJson = project'.toJson ↔
    project.modelVersion = project'.modelVersion ∧ project.groupId = project'.groupId ∧
      project.artifactId = project'.artifactId ∧ project.version = project'.version ∧
      project.packaging = project'.packaging ∧ project.modules = project'.modules ∧
      project.effectiveProperties = project'.effectiveProperties ∧
      project.effectivePlugins = project'.effectivePlugins ∧
      project.ancestors.map Project.id = project'.ancestors.map Project.id ∧
      project.location = project'.location := by
  have hplugins := List.map_injective_iff.2 PluginConfig.toJson_injective
  simp only [toJson, Json.object.injEq, List.append_assoc, List.cons_append, List.nil_append,
    Json.entry?_eq]
  rw [Json.optional_append_inj Json.string_injective (by simp [Json.notMem_keys_optional])
      (by simp [Json.notMem_keys_optional]),
    Json.optional_append_inj Json.string_injective (by simp [Json.notMem_keys_optional])
      (by simp [Json.notMem_keys_optional]), List.cons.injEq,
    Json.optional_append_inj Json.string_injective (by simp) (by simp)]
  simp only [List.cons.injEq, Prod.mk.injEq, true_and, Json.string.injEq, Json.array.injEq,
    Json.strings_inj, Json.stringMap_inj, hplugins.eq_iff, Packaging.name_injective.eq_iff,
    and_true]

theorem IsFloatFree.isExact (h : project.IsFloatFree) : project.toJson.IsExact := by
  have hplugins : (Json.array (project.effectivePlugins.map PluginConfig.toJson)).IsExact :=
    .array (List.forall_mem_map.2 fun plugin hplugin ↦ (h plugin hplugin).isExact)
  rw [Project.toJson]
  apply Json.IsExact.object
  simp only [List.forall_mem_append, List.forall_mem_cons]
  exact ⟨⟨⟨⟨Json.isExact_of_mem_entry? _ _, Json.isExact_of_mem_entry? _ _⟩, .string _,
    List.forall_mem_nil _⟩, Json.isExact_of_mem_entry? _ _⟩, .string _, Json.isExact_strings _,
    Json.isExact_stringMap _, hplugins, Json.isExact_strings _, .string _, List.forall_mem_nil _⟩

theorem IsFloatFree.toJson (h : project.IsFloatFree) : project.toJson.FloatFree :=
  h.isExact.floatFree

/-- Two projects without floating-point options have the same text for their fingerprints if and
only if they agree in every field that is written, down to the kinds of the values in options. -/
theorem compact_toJson_eq_iff (h : project.IsFloatFree) (h' : project'.IsFloatFree) :
    project.toJson.compact = project'.toJson.compact ↔
      project.modelVersion = project'.modelVersion ∧ project.groupId = project'.groupId ∧
        project.artifactId = project'.artifactId ∧ project.version = project'.version ∧
        project.packaging = project'.packaging ∧ project.modules = project'.modules ∧
        project.effectiveProperties = project'.effectiveProperties ∧
        project.effectivePlugins = project'.effectivePlugins ∧
        project.ancestors.map Project.id = project'.ancestors.map Project.id ∧
        project.location = project'.location := by
  rw [← toJson_eq_toJson_iff]
  constructor
  · intro htext
    exact h.toJson.eq_of_compact_eq h'.toJson htext
  · intro hdocument
    rw [hdocument]

/-- A project with one plugin that takes a nested setting. -/
def withLevel (level : Value) : Project :=
  { (default : Project) with
    artifactId := "web"
    effectivePlugins :=
      [⟨"lint", SortedMap.ofList [("rules", .mapping [("level", level)])], some false⟩]
    location := "/w/project.json" }

/-- A nested setting that is the number one is not hidden behind the text of it. -/
theorem compact_withLevel_ne :
    (withLevel (.integer 1)).IsFloatFree ∧ (withLevel (.string "1")).IsFloatFree ∧
      (withLevel (.integer 1)).toJson.compact ≠ (withLevel (.string "1")).toJson.compact := by
  have hfree {level : Value} (h : level.FloatFree) : (withLevel level).IsFloatFree := by
    intro plugin hplugin entry hentry
    obtain rfl := List.mem_singleton.1 hplugin
    obtain rfl := List.mem_singleton.1 hentry
    exact .mapping (by simpa using h)
  have hinteger := hfree (.integer 1)
  have hstring := hfree (.string "1")
  refine ⟨hinteger, hstring, ?_⟩
  intro htext
  obtain ⟨-, -, -, -, -, -, -, hplugins, -⟩ := (compact_toJson_eq_iff hinteger hstring).1 htext
  have hoptions : [[("rules", Value.mapping [("level", .integer 1)])]] =
      [[("rules", Value.mapping [("level", .string "1")])]] :=
    congrArg (List.map fun plugin : PluginConfig ↦ plugin.options.entries) hplugins
  simp at hoptions

end Project

end Reactor

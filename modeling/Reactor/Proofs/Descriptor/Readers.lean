import Reactor.Descriptor.OfValue
import Reactor.Proofs.Outcome
import Reactor.Proofs.SortedMap
import Reactor.Proofs.Text.Trim

/-!
# What the readers of a descriptor return

For each reader, the values that it accepts and what it returns for them. Nothing is read from a
field that is not there. Names lose the blanks at their ends before they are compared.
-/

namespace Reactor

theorem Packaging.ofName?_eq_some_iff {name : String} {packaging : Packaging} :
    ofName? name = some packaging ↔ name = packaging.name := by
  constructor
  · intro h
    have hname := List.find?_some h
    exact (of_decide_eq_true hname).symm
  · rintro rfl
    exact ofName?_name packaging

/-- Which coordinates the parts of a short form are: the artifact alone, after the group, or between
the group and the version. -/
inductive ParentRef.IsMadeOf : List String → ParentRef → Prop
  | artifact (artifactId : String) : IsMadeOf [artifactId] ⟨none, artifactId, none, none⟩
  | group (groupId artifactId : String) :
    IsMadeOf [groupId, artifactId] ⟨some groupId, artifactId, none, none⟩
  | version (groupId artifactId version : String) :
    IsMadeOf [groupId, artifactId, version] ⟨some groupId, artifactId, some version, none⟩

theorem ParentRef.exists_isMadeOf_iff {parts : List String} :
    (∃ ref, IsMadeOf parts ref) ↔ parts.length ∈ [1, 2, 3] := by
  constructor
  · rintro ⟨ref, _ | _ | _⟩ <;> simp
  · intro hlength
    rcases parts with _ | ⟨first, _ | ⟨second, _ | ⟨third, _ | ⟨fourth, rest⟩⟩⟩⟩
    case nil => simp at hlength
    case cons.nil => exact ⟨_, .artifact first⟩
    case cons.cons.nil => exact ⟨_, .group first second⟩
    case cons.cons.cons.nil => exact ⟨_, .version first second third⟩
    case cons.cons.cons.cons => simp at hlength

theorem ParentRef.ofCoordinates?_eq_some_iff {text : String} {ref : ParentRef} :
    ofCoordinates? text = some ref ↔
      IsMadeOf ((Text.split ':' text).map Text.trim) ref ∧
        ∀ part ∈ Text.split ':' text, Text.isBlankText part = false := by
  unfold ofCoordinates?
  have hblank : ((Text.split ':' text).map Text.trim).any String.isEmpty = true ↔
      ¬∀ part ∈ Text.split ':' text, Text.isBlankText part = false := by
    simp [Text.isEmpty_trim]
  simp only [hblank]
  generalize (Text.split ':' text).map Text.trim = parts
  split
  case isTrue h => simp [h]
  case isFalse h =>
    rw [and_iff_left (not_not.1 h)]
    constructor
    · intro href
      split at href
      case h_4 => cases href
      all_goals
        obtain rfl := Option.some.inj href
        constructor
    · rintro (_ | _ | _) <;> rfl

namespace Descriptor

open Text (trim isBlankText)

variable {fields : Fields} {value : Value} {key : String}

/-! ## Strings -/

theorem optionalString_eq_ok_iff {text : Option String} :
    optionalString fields key = .ok text ↔ fields.get? key = text.map .string := by
  unfold optionalString
  cases fields.get? key with
  | none => cases text <;> simp
  | some value => cases value <;> cases text <;> simp

theorem nonBlank?_eq_some_iff {text name : String} :
    nonBlank? text = some name ↔ isBlankText text = false ∧ trim text = name := by
  unfold nonBlank?
  simp [Text.isEmpty_trim]

theorem nonBlankString?_eq_some_iff {name : String} :
    nonBlankString? value = some name ↔
      ∃ text, value = .string text ∧ isBlankText text = false ∧ trim text = name := by
  cases value <;> simp [nonBlankString?, nonBlank?_eq_some_iff]

theorem readArtifactId_eq_ok_iff {artifactId : String} :
    readArtifactId fields = .ok artifactId ↔
      (fields.get? "artifactId").bind nonBlankString? = some artifactId := by
  unfold readArtifactId optionalString
  cases fields.get? "artifactId" with
  | none => simp [bind, Except.bind]
  | some value =>
    cases value with
    | string text =>
      simp only [bind, Except.bind, Option.bind_some, nonBlankString?]
      cases nonBlank? text <;> simp
    | _ => simp [bind, Except.bind, nonBlankString?]

theorem readPackaging_eq_ok_iff {packaging : Packaging} :
    readPackaging fields = .ok packaging ↔
      (fields.get? "packaging" = none ∧ packaging = default) ∨
        fields.get? "packaging" = some (.string packaging.name) := by
  unfold readPackaging optionalString
  cases fields.get? "packaging" with
  | none => simp [bind, Except.bind, eq_comm]
  | some value =>
    cases value with
    | string name =>
      simp only [bind, Except.bind, reduceCtorEq, false_and, false_or, Option.some.injEq,
        Value.string.injEq, ← Packaging.ofName?_eq_some_iff]
      cases Packaging.ofName? name <;> simp
    | _ => simp [bind, Except.bind]

/-! ## The parent -/

theorem readParentPart_eq_ok_iff {part : Option String} :
    readParentPart fields key = .ok part ↔
      Option.Rel (fun value text ↦ nonBlankString? value = some text) (fields.get? key) part := by
  unfold readParentPart
  cases fields.get? key with
  | none => cases part <;> simp
  | some value => cases h : nonBlankString? value <;> cases part <;> simp [h]

theorem readParent_string_eq_ok_iff {text : String} {ref : ParentRef} :
    readParent (.string text) = .ok ref ↔ ParentRef.ofCoordinates? text = some ref := by
  rw [readParent]
  cases ParentRef.ofCoordinates? text <;> simp

theorem readParent_mapping_eq_ok_iff {entries : List (String × Value)} {ref : ParentRef} :
    readParent (.mapping entries) = .ok ref ↔
      readParentPart (SortedMap.ofList entries) "artifactId" = .ok (some ref.artifactId) ∧
        readParentPart (SortedMap.ofList entries) "groupId" = .ok ref.groupId ∧
        readParentPart (SortedMap.ofList entries) "version" = .ok ref.version ∧
        readParentPart (SortedMap.ofList entries) "relativePath" = .ok ref.relativePath := by
  rw [readParent, bind_eq_ok]
  constructor
  · rintro ⟨artifactId?, hartifactId, h⟩
    cases artifactId? with
    | none => cases h
    | some artifactId =>
      simp only [bind_eq_ok, Except.ok.injEq] at h
      obtain ⟨groupId, hgroupId, version, hversion, relativePath, hrelativePath, rfl⟩ := h
      exact ⟨hartifactId, hgroupId, hversion, hrelativePath⟩
  · rintro ⟨hartifactId, hgroupId, hversion, hrelativePath⟩
    refine ⟨some ref.artifactId, hartifactId, ?_⟩
    simp only [hgroupId, hversion, hrelativePath]
    rfl

theorem readParent?_eq_ok_iff {parentRef : Option ParentRef} :
    readParent? fields = .ok parentRef ↔
      Option.Rel (fun value ref ↦ readParent value = .ok ref) (fields.get? "parent") parentRef := by
  rw [← option_mapM_eq_ok]
  unfold readParent?
  cases fields.get? "parent" <;> rfl

/-! ## Properties -/

theorem readPropertyList_eq_ok_iff {entries : List (String × Value)}
    {texts : List (String × String)} :
    readPropertyList entries = .ok texts ↔
      List.Forall₂ (fun entry text ↦ entry.1 = text.1 ∧ entry.2.scalarText? = some text.2)
        entries texts := by
  induction entries generalizing texts with
  | nil => cases texts <;> simp [readPropertyList]
  | cons entry rest ih =>
    obtain ⟨name, value⟩ := entry
    rw [readPropertyList, List.forall₂_cons_left_iff]
    cases value.scalarText? with
    | none => simp
    | some text =>
      simp only [map_eq_ok, ih, Option.some.injEq]
      constructor
      · rintro ⟨texts, htexts, rfl⟩
        exact ⟨(name, text), texts, ⟨rfl, rfl⟩, htexts, rfl⟩
      · rintro ⟨⟨name', text'⟩, texts, ⟨rfl, rfl⟩, htexts, rfl⟩
        exact ⟨texts, htexts, rfl⟩

/-- The properties are the scalars of a mapping, each as text. -/
theorem readProperties_eq_ok_iff {properties : SortedMap String} :
    readProperties fields = .ok properties ↔
      (fields.get? "properties" = none ∧ properties = ∅) ∨
        ∃ entries, fields.get? "properties" = some (.mapping entries) ∧
          (SortedMap.ofList entries).Related (fun value text ↦ value.scalarText? = some text)
            properties := by
  unfold readProperties
  cases fields.get? "properties" with
  | none => simp [eq_comm]
  | some value =>
    cases value with
    | mapping entries =>
      simp only [map_eq_ok, readPropertyList_eq_ok_iff, reduceCtorEq, false_and, false_or,
        Option.some.injEq, Value.mapping.injEq, exists_eq_left']
      exact SortedMap.exists_ofList_eq_iff
        (R := fun (value : Value) text ↦ value.scalarText? = some text)
    | _ => simp

/-! ## Modules -/

/-- A name in front of others is new and differs from them if it has not been seen, and the others
are new once it has been. -/
theorem nodup_cons_and_new_iff {name : String} {names seen : List String} :
    ((name :: names).Nodup ∧ ∀ other ∈ name :: names, other ∉ seen) ↔
      name ∉ seen ∧ names.Nodup ∧ ∀ other ∈ names, other ∉ name :: seen := by
  simp only [List.nodup_cons, List.mem_cons, not_or]
  constructor
  · rintro ⟨⟨hname, hnames⟩, hnew⟩
    refine ⟨hnew name (.inl rfl), hnames, fun other hother ↦ ⟨?_, hnew other (.inr hother)⟩⟩
    rintro rfl
    exact hname hother
  · rintro ⟨hname, hnames, hnew⟩
    refine ⟨⟨fun hmem ↦ (hnew name hmem).1 rfl, hnames⟩, ?_⟩
    rintro other (rfl | hother)
    · exact hname
    · exact (hnew other hother).2

theorem readModuleList_eq_ok_iff {seen names : List String} {items : List Value} :
    readModuleList seen items = .ok names ↔
      List.Forall₂ (fun item name ↦ nonBlankString? item = some name) items names ∧
        names.Nodup ∧ ∀ name ∈ names, name ∉ seen := by
  induction items generalizing seen names with
  | nil => cases names <;> simp [readModuleList]
  | cons item rest ih =>
    rw [readModuleList, List.forall₂_cons_left_iff]
    cases nonBlankString? item with
    | none => simp
    | some name =>
      simp only
      constructor
      · intro h
        split at h
        case isTrue => cases h
        case isFalse hseen =>
          obtain ⟨names, hnames, rfl⟩ := map_eq_ok.1 h
          obtain ⟨hitems, hnames⟩ := ih.1 hnames
          have hname : name ∉ seen := by simpa using hseen
          exact ⟨⟨name, names, rfl, hitems, rfl⟩, nodup_cons_and_new_iff.2 ⟨hname, hnames⟩⟩
      · rintro ⟨⟨_, names, ⟨⟩, hitems, rfl⟩, h⟩
        obtain ⟨hname, hnames⟩ := nodup_cons_and_new_iff.1 h
        rw [if_neg (by simpa using hname), ih.2 ⟨hitems, hnames⟩]
        rfl

/-- The modules are the names in a sequence, which must differ. -/
theorem readModules_eq_ok_iff {names : List String} :
    readModules fields = .ok names ↔
      (fields.get? "modules" = none ∧ names = []) ∨
        ∃ items, fields.get? "modules" = some (.sequence items) ∧
          List.Forall₂ (fun item name ↦ nonBlankString? item = some name) items names ∧
          names.Nodup := by
  unfold readModules
  cases fields.get? "modules" with
  | none => simp [eq_comm]
  | some value => cases value <;> simp [readModuleList_eq_ok_iff]

/-! ## Plugins -/

theorem readSkip_eq_ok_iff {id : String} {flag : Bool} :
    readSkip id value = .ok flag ↔
      value = .bool flag ∨ value = .string (if flag then "true" else "false") := by
  unfold readSkip
  split
  case h_1 => simp
  case h_2 => cases flag <;> simp
  case h_3 => cases flag <;> simp
  case h_4 hbool htrue hfalse =>
    have hneither :
        ¬(value = .bool flag ∨ value = .string (if flag then "true" else "false")) := by
      rintro (rfl | rfl)
      · exact hbool flag rfl
      · cases flag
        · exact hfalse rfl
        · exact htrue rfl
    simp [hneither]

theorem readOptions_eq_ok_iff {id : String} {options : Fields} :
    readOptions id fields = .ok options ↔
      (fields.get? "options" = none ∧ options = ∅) ∨
        ∃ entries, fields.get? "options" = some (.mapping entries) ∧
          options = SortedMap.ofList entries := by
  unfold readOptions
  cases fields.get? "options" with
  | none => simp [eq_comm]
  | some value => cases value <;> simp [eq_comm]

theorem readPlugin_mapping_eq_ok_iff {index : Nat} {entries : List (String × Value)}
    {plugin : PluginConfig} :
    readPlugin index (.mapping entries) = .ok plugin ↔
      ((SortedMap.ofList entries).get? "id").bind nonBlankString? = some plugin.id ∧
        ∃ options, readOptions plugin.id (SortedMap.ofList entries) = .ok options ∧
          plugin.options = options.erase "skip" ∧
          Option.Rel (fun value flag ↦ readSkip plugin.id value = .ok flag)
            (((SortedMap.ofList entries).get? "skip").or (options.get? "skip")) plugin.skip := by
  rw [readPlugin]
  cases ((SortedMap.ofList entries).get? "id").bind nonBlankString? with
  | none => simp
  | some id =>
    simp only [bind_eq_ok, option_mapM_eq_ok, Option.some.injEq]
    constructor
    · rintro ⟨options, hoptions, skip, hskip, ⟨⟩⟩
      exact ⟨rfl, options, hoptions, rfl, hskip⟩
    · rintro ⟨rfl, options, hoptions, herase, hskip⟩
      refine ⟨options, hoptions, plugin.skip, hskip, ?_⟩
      rw [← herase]

theorem exists_entries_of_readPlugin {index : Nat} {plugin : PluginConfig}
    (h : readPlugin index value = .ok plugin) : ∃ entries, value = .mapping entries := by
  cases value with
  | mapping entries => exact ⟨entries, rfl⟩
  | _ => cases h

/-- The position of a plugin matters to the faults only. -/
theorem readPlugin_eq_ok_iff_of_index (index index' : Nat) {plugin : PluginConfig} :
    readPlugin index value = .ok plugin ↔ readPlugin index' value = .ok plugin := by
  cases value with
  | mapping entries => rw [readPlugin_mapping_eq_ok_iff, readPlugin_mapping_eq_ok_iff]
  | _ => simp [readPlugin]

theorem readPluginList_eq_ok_iff {index : Nat} {seen : List String} {items : List Value}
    {plugins : List PluginConfig} :
    readPluginList index seen items = .ok plugins ↔
      List.Forall₂ (fun item plugin ↦ readPlugin 0 item = .ok plugin) items plugins ∧
        (plugins.map (·.id)).Nodup ∧ ∀ id ∈ plugins.map (·.id), id ∉ seen := by
  induction items generalizing index seen plugins with
  | nil => cases plugins <;> simp [readPluginList]
  | cons item rest ih =>
    rw [readPluginList, List.forall₂_cons_left_iff]
    simp only [bind_eq_ok]
    constructor
    · rintro ⟨plugin, hplugin, h⟩
      split at h
      case isTrue => cases h
      case isFalse hseen =>
        obtain ⟨plugins, hplugins, rfl⟩ := map_eq_ok.1 h
        obtain ⟨hitems, hids⟩ := ih.1 hplugins
        have hid : plugin.id ∉ seen := by simpa using hseen
        exact ⟨⟨plugin, plugins, (readPlugin_eq_ok_iff_of_index index 0).1 hplugin, hitems, rfl⟩,
          nodup_cons_and_new_iff.2 ⟨hid, hids⟩⟩
    · rintro ⟨⟨plugin, plugins, hplugin, hitems, rfl⟩, h⟩
      obtain ⟨hid, hids⟩ := nodup_cons_and_new_iff.1 h
      refine ⟨plugin, (readPlugin_eq_ok_iff_of_index index 0).2 hplugin, ?_⟩
      rw [if_neg (by simpa using hid), ih.2 ⟨hitems, hids⟩]
      rfl

theorem readPlugins_eq_ok_iff {plugins : List PluginConfig} :
    readPlugins fields = .ok plugins ↔
      (fields.get? "plugins" = none ∧ plugins = []) ∨
        ∃ items, fields.get? "plugins" = some (.sequence items) ∧
          List.Forall₂ (fun item plugin ↦ readPlugin 0 item = .ok plugin) items plugins ∧
          (plugins.map (·.id)).Nodup := by
  unfold readPlugins
  cases fields.get? "plugins" with
  | none => simp [eq_comm]
  | some value => cases value <;> simp [readPluginList_eq_ok_iff]

/-! ## Descriptors -/

variable {globals : SortedMap String} {location : String} {d : Descriptor}

/-- A mapping is read as a descriptor if each field is, and if modules are listed only where the
packaging allows them. -/
theorem ofFields_eq_ok_iff :
    ofFields globals location fields = .ok d ↔
      readArtifactId fields = .ok d.artifactId ∧ readPackaging fields = .ok d.packaging ∧
        readParent? fields = .ok d.parentRef ∧
        (∃ declared, readProperties fields = .ok declared ∧
          d.properties = if d.parentRef.isNone then globals.overlay declared else declared) ∧
        readModules fields = .ok d.modules ∧
        (d.modules = [] ∨ d.packaging.allowsModules = true) ∧
        optionalString fields "modelVersion" = .ok d.modelVersion ∧
        optionalString fields "groupId" = .ok d.groupId ∧
        optionalString fields "version" = .ok d.version ∧
        readPlugins fields = .ok d.plugins ∧ d.location = location := by
  unfold ofFields
  simp only [bind_eq_ok]
  constructor
  · rintro ⟨artifactId, hartifactId, packaging, hpackaging, parentRef, hparentRef, declared,
      hdeclared, modules, hmodules, h⟩
    split at h
    case isTrue => cases h
    case isFalse hallowed =>
      simp only [bind_eq_ok] at h
      obtain ⟨modelVersion, hmodelVersion, groupId, hgroupId, version, hversion, plugins, hplugins,
        ⟨⟩⟩ := h
      have hallowed : modules = [] ∨ packaging.allowsModules = true := by
        simpa [Classical.or_iff_not_imp_left] using hallowed
      exact ⟨hartifactId, hpackaging, hparentRef, ⟨declared, hdeclared, rfl⟩, hmodules, hallowed,
        hmodelVersion, hgroupId, hversion, hplugins, rfl⟩
  · rintro ⟨hartifactId, hpackaging, hparentRef, ⟨declared, hdeclared, hproperties⟩, hmodules,
      hallowed, hmodelVersion, hgroupId, hversion, hplugins, rfl⟩
    refine ⟨d.artifactId, hartifactId, d.packaging, hpackaging, d.parentRef, hparentRef, declared,
      hdeclared, d.modules, hmodules, ?_⟩
    have hnot : ¬(d.modules ≠ [] ∧ ¬d.packaging.allowsModules = true) := by
      rintro ⟨hmodules, hpackaging⟩
      exact hallowed.elim hmodules hpackaging
    rw [if_neg hnot, hmodelVersion, hgroupId, hversion, hplugins, ← hproperties]
    rfl

theorem ofValue_mapping (globals : SortedMap String) (location : String)
    (entries : List (String × Value)) :
    ofValue globals location (.mapping entries) =
      (ofFields globals location (SortedMap.ofList entries)).mapError (.malformed location) :=
  rfl

theorem ofValue_eq_ok_iff :
    ofValue globals location value = .ok d ↔
      ∃ entries, value = .mapping entries ∧
        ofFields globals location (SortedMap.ofList entries) = .ok d := by
  cases value with
  | mapping entries => simp [ofValue_mapping, mapError_eq_ok]
  | _ => simp [ofValue, Except.mapError]

end Descriptor

end Reactor

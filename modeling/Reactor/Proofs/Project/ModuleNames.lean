import Reactor.Proofs.Descriptor.Loaded
import Reactor.Proofs.Project.Obtained

/-!
# Module names before and after expansion

A descriptor lists its modules by distinct names, none of which is blank. The names of a resolved
project are the expansions of these names, and nothing is checked again: placeholders can make names
equal or leave nothing of them. Whether a project can be resolved depends on the module names only
in so far as each of them has to expand.
-/

namespace Reactor

open Text (trim isBlankText)

/-- Module names as they may be declared: none is blank, and all differ without the blanks at their
ends. -/
structure AreModuleNames (names : List String) : Prop where
  notBlank : ∀ name ∈ names, isBlankText name = false
  distinct : (names.map trim).Nodup

theorem areModuleNames_of_loaded {names : List String} (h : ∀ name ∈ names, IsLoadedName name)
    (hnodup : names.Nodup) : AreModuleNames names := by
  have hname (name : String) (hmem : name ∈ names) : isBlankText name = false ∧ trim name = name :=
    Descriptor.nonBlank?_eq_some_iff.1 (h name hmem)
  have htrim : names.map trim = names.map id :=
    List.map_congr_left fun name hmem ↦ (hname name hmem).2
  refine ⟨fun name hmem ↦ (hname name hmem).1, ?_⟩
  rw [htrim, List.map_id]
  exact hnodup

namespace Descriptor

variable {globals : SortedMap String} {location : String} {value : Value} {d : Descriptor}

theorem areModuleNames_of_ofValue (h : ofValue globals location value = .ok d) :
    AreModuleNames d.modules := by
  have hloaded := isLoaded_of_ofValue h
  exact areModuleNames_of_loaded hloaded.modules hloaded.distinctModules

/-- The descriptor with other modules. -/
def withModules (modules : List String) (d : Descriptor) : Descriptor :=
  { d with modules }

end Descriptor

namespace Project

variable {policy : MissingProperty} {d : Descriptor} {supplied : Option Project}
  {project scope result : Project} {modules names names' : List String}

def withModules (modules names : List String) (project : Project) : Project :=
  { project with
    declared := project.declared.withModules modules
    modules := names }

theorem inherit_withModules (h : inherit d supplied = .ok project) :
    inherit (d.withModules modules) supplied = .ok (project.withModules modules modules) := by
  obtain ⟨chain, hchain, hrepeated, rfl⟩ := inherit_eq_ok_iff.1 h
  exact inherit_eq_ok_iff.2 ⟨chain, hchain, hrepeated, rfl⟩

theorem substituteCoordinates_withModules (h : project.substituteCoordinates policy = .ok scope) :
    (project.withModules modules names).substituteCoordinates policy =
      .ok (scope.withModules modules names) := by
  obtain ⟨groupId, version, hgroupId, hversion, rfl⟩ := substituteCoordinates_eq_ok_iff.1 h
  exact substituteCoordinates_eq_ok_iff.2 ⟨groupId, version, hgroupId, hversion, rfl⟩

theorem declaredProperties_withModules (modules names : List String) (project : Project) :
    (project.withModules modules names).declaredProperties = project.declaredProperties := by
  simp [declaredProperties, levels, withModules, Descriptor.withModules]

theorem substitute_withModules (h : project.substitute policy = .ok result)
    (hmodules : modules.mapM (result.expand policy) = .ok names') :
    (project.withModules modules names).substitute policy =
      .ok (result.withModules modules names') := by
  obtain ⟨scope, properties, _, plugins, hscope, hproperties, -, hplugins, rfl⟩ :=
    substitute_eq_ok_iff.1 h
  rw [← declaredProperties_withModules modules names] at hproperties
  exact substitute_eq_ok_iff.2 ⟨_, properties, names', plugins,
    substituteCoordinates_withModules hscope, hproperties, hmodules, hplugins, rfl⟩

theorem applyPlugins_withModules (h : project.applyPlugins policy = .ok result) :
    (project.withModules modules names).applyPlugins policy =
      .ok (result.withModules modules names) := by
  obtain ⟨effectivePlugins, heffective, rfl⟩ := applyPlugins_eq_ok_iff.1 h
  have hlevels : (project.withModules modules names).levels.map (·.declared.plugins) =
      project.levels.map (·.declared.plugins) := by
    simp [levels, withModules, Descriptor.withModules]
  rw [← hlevels] at heffective
  exact applyPlugins_eq_ok_iff.2 ⟨effectivePlugins, heffective, rfl⟩

theorem expand_of_applyPlugins (h : project.applyPlugins policy = .ok result) :
    result.expand = project.expand := by
  obtain ⟨effectivePlugins, -, rfl⟩ := applyPlugins_eq_ok_iff.1 h
  rfl

/-- Resolution with other modules, each of which expands, differs in the modules only. -/
theorem resolve_withModules (h : resolve policy d supplied = .ok project)
    (hmodules : modules.mapM (project.expand policy) = .ok names) :
    resolve policy (d.withModules modules) supplied = .ok (project.withModules modules names) := by
  obtain ⟨inherited, substituted, hinherited, hsubstituted, happlied⟩ := resolve_eq_ok_iff.1 h
  rw [expand_of_applyPlugins happlied] at hmodules
  exact resolve_eq_ok_iff.2 ⟨_, _, inherit_withModules hinherited,
    substitute_withModules hsubstituted hmodules, applyPlugins_withModules happlied⟩

/-- The modules of a resolved project are the declared ones, each expanded. -/
theorem modules_of_resolve (h : resolve policy d supplied = .ok project) :
    d.modules.mapM (project.expand policy) = .ok project.modules := by
  obtain ⟨inherited, scope, _, _, _, _, hinherited, hscope, -, hmodules, -, -, rfl⟩ :=
    resolve_cases h
  obtain ⟨chain, -, -, rfl⟩ := inherit_eq_ok_iff.1 hinherited
  rw [declared_of_substituteCoordinates hscope] at hmodules
  exact hmodules

/-- What a project is resolved to is what it is resolved to without modules, together with the
expansions of their names, whatever these are. -/
theorem resolve_eq_ok_iff_withModules :
    resolve policy d supplied = .ok project ↔ ∃ bare names,
      resolve policy (d.withModules []) supplied = .ok bare ∧
      d.modules.mapM (bare.expand policy) = .ok names ∧
      project = bare.withModules d.modules names := by
  constructor
  · intro h
    have hdeclared := declared_of_resolve h
    have hnone : ([] : List String).mapM (project.expand policy) = .ok [] := rfl
    refine ⟨_, project.modules, resolve_withModules h hnone, modules_of_resolve h, ?_⟩
    rw [← hdeclared]
    cases project
    rfl
  · rintro ⟨bare, names, hbare, hnames, rfl⟩
    have hresolved := resolve_withModules hbare hnames
    exact hresolved

/-! ## What is left of the guarantee -/

/-- Names that are module names as far as the declared ones are plain: each name that is blank, and
one of any two names that collide, stands for a declared name with a placeholder. -/
structure AreModuleNamesWherePlain (declared names : List String) : Prop where
  notBlank : ∀ (i : Nat) (name : String), names[i]? = some name → isBlankText name = true →
    ∃ text, declared[i]? = some text ∧ ¬Placeholder.IsPlain text
  distinct : ∀ (i j : Nat) (name name' : String), i < j → names[i]? = some name →
    names[j]? = some name' → trim name = trim name' →
    ∃ text, (declared[i]? = some text ∨ declared[j]? = some text) ∧ ¬Placeholder.IsPlain text

/-- A name without placeholders is kept at its position. -/
theorem exists_declared_of_mapM (h : modules.mapM (project.expand policy) = .ok names) {i : Nat}
    {name : String} (hi : names[i]? = some name) :
    ∃ text, modules[i]? = some text ∧ (Placeholder.IsPlain text → text = name) := by
  have hrel := rel_getElem?_of_forall₂ (mapM_eq_ok.1 h) i
  rw [hi] at hrel
  generalize modules[i]? = declared at hrel
  cases hrel with
  | @some text _ hexpand =>
    refine ⟨text, rfl, fun hplain ↦ ?_⟩
    rw [expand_of_plain hplain] at hexpand
    exact Except.ok.inj hexpand

theorem areModuleNamesWherePlain_of_mapM (hmodules : AreModuleNames modules)
    (h : modules.mapM (project.expand policy) = .ok names) :
    AreModuleNamesWherePlain modules names := by
  constructor
  · intro i name hi hblank
    obtain ⟨text, htext, hsame⟩ := exists_declared_of_mapM h hi
    refine ⟨text, htext, fun hplain ↦ ?_⟩
    have hnotBlank := hmodules.notBlank text (List.mem_of_getElem? htext)
    rw [hsame hplain, hblank] at hnotBlank
    cases hnotBlank
  · intro i j name name' hij hi hj htrim
    obtain ⟨text, htext, hsame⟩ := exists_declared_of_mapM h hi
    obtain ⟨text', htext', hsame'⟩ := exists_declared_of_mapM h hj
    have hboth : ¬(Placeholder.IsPlain text ∧ Placeholder.IsPlain text') := by
      rintro ⟨hplain, hplain'⟩
      rw [← hsame hplain, ← hsame' hplain'] at htrim
      have hj' : j < (modules.map trim).length := by
        rw [List.length_map]
        exact (List.getElem?_eq_some_iff.1 htext').1
      apply List.nodup_iff_getElem?_ne_getElem?.1 hmodules.distinct i j hij hj'
      rw [List.getElem?_map, List.getElem?_map, htext, htext', Option.map_some, Option.map_some,
        htrim]
    rcases not_and_or.1 hboth with hplain | hplain'
    · exact ⟨text, .inl htext, hplain⟩
    · exact ⟨text', .inr htext', hplain'⟩

/-- The module names that a descriptor declares are not blank and differ, and what a project is
resolved to has their expansions in the same order. These need not be distinct or other than blank,
unless the declared names are plain: a project can be resolved as soon as it can be resolved without
modules and each of their names expands. -/
theorem modules_of_ofValue {globals : SortedMap String} {location : String} {value : Value}
    (hd : Descriptor.ofValue globals location value = .ok d) :
    AreModuleNames d.modules ∧
    (∀ project, resolve policy d supplied = .ok project →
      d.modules.mapM (project.expand policy) = .ok project.modules ∧
      AreModuleNamesWherePlain d.modules project.modules) ∧
    ∀ project, resolve policy d supplied = .ok project ↔ ∃ bare names,
      resolve policy (d.withModules []) supplied = .ok bare ∧
      d.modules.mapM (bare.expand policy) = .ok names ∧
      project = bare.withModules d.modules names := by
  have hmodules := Descriptor.areModuleNames_of_ofValue hd
  refine ⟨hmodules, fun project h ↦ ?_, fun project ↦ resolve_eq_ok_iff_withModules⟩
  have hnames := modules_of_resolve h
  exact ⟨hnames, areModuleNamesWherePlain_of_mapM hmodules hnames⟩

/-- A value that lists three modules. One has the name that a second one expands to, and nothing is
left of the third one. -/
def placeholderModules : Value :=
  .mapping [("artifactId", .string "a"), ("packaging", .string "pom"),
    ("properties", .mapping [("here", .string ""), ("name", .string "sub")]),
    ("modules",
      .sequence [.string "sub", .string "$\x7bname\x7d", .string "$\x7bhere\x7d"])]

def placeholderModulesDescriptor : Descriptor :=
  { (default : Descriptor) with
    artifactId := "a"
    packaging := .pom
    properties := SortedMap.ofList [("here", ""), ("name", "sub")]
    modules := ["sub", "$\x7bname\x7d", "$\x7bhere\x7d"]
    location := "/w/project.json" }

theorem ofValue_placeholderModules :
    Descriptor.ofValue ∅ "/w/project.json" placeholderModules =
      .ok placeholderModulesDescriptor := by
  rfl

def placeholderModulesProject : Project :=
  { extend placeholderModulesDescriptor [] with modules := ["sub", "sub", ""] }

theorem resolve_placeholderModules :
    resolve .fail placeholderModulesDescriptor none = .ok placeholderModulesProject := by
  rfl

/-- Neither part of the guarantee survives the expansion of placeholders, and the project is not
rejected. -/
theorem not_areModuleNames_placeholderModules :
    ∃ d project, Descriptor.ofValue ∅ "/w/project.json" placeholderModules = .ok d ∧
      resolve .fail d none = .ok project ∧
      (∃ name ∈ project.modules, isBlankText name = true) ∧
      ¬(project.modules.map trim).Nodup := by
  refine ⟨_, _, ofValue_placeholderModules, resolve_placeholderModules, ?_⟩
  decide

theorem modules_of_ofValue_placeholderModules :
    Descriptor.ofValue ∅ "/w/project.json" placeholderModules = .ok placeholderModulesDescriptor ∧
      resolve .fail placeholderModulesDescriptor none = .ok placeholderModulesProject ∧
      AreModuleNames placeholderModulesDescriptor.modules ∧
      AreModuleNamesWherePlain placeholderModulesDescriptor.modules ["sub", "sub", ""] := by
  obtain ⟨hdeclared, hresolved, -⟩ := modules_of_ofValue ofValue_placeholderModules
  exact ⟨ofValue_placeholderModules, resolve_placeholderModules, hdeclared,
    (hresolved _ resolve_placeholderModules).2⟩

end Project

end Reactor

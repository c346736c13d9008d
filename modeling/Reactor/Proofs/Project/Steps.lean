import Reactor.Project.Resolution
import Reactor.Proofs.Outcome

/-!
# The steps of resolving a project

What each step of resolution did when it succeeded, stated once for all later proofs: inheritance
extends the descriptor by a chain of ancestors, substitution expands texts of the descriptors in the
scope of the expanded coordinates, and the plugins of all levels are merged and expanded.
-/

namespace Reactor.Project

variable {policy : MissingProperty} {d : Descriptor} {parent : Option Project}
  {project inherited scope result : Project}

theorem inherit_eq_ok_iff :
    inherit d parent = .ok project ↔ ∃ chain, ancestorsOf d parent = .ok chain ∧
      repeatedFrom (extend d chain).groupId d.artifactId chain = [] ∧ project = extend d chain := by
  have hartifactId (chain : List Project) : (extend d chain).artifactId = d.artifactId := rfl
  unfold inherit
  rw [bind_eq_ok]
  constructor
  · rintro ⟨chain, hchain, h⟩
    simp only [hartifactId] at h
    cases hcycle : repeatedFrom (extend d chain).groupId d.artifactId chain with
    | nil =>
      simp only [hcycle, Except.ok.injEq] at h
      exact ⟨chain, hchain, hcycle, h.symm⟩
    | cons first rest => simp [hcycle] at h
  · rintro ⟨chain, hchain, hcycle, rfl⟩
    exact ⟨chain, hchain, by simp only [hartifactId, hcycle]⟩

theorem substituteCoordinates_eq_ok_iff :
    project.substituteCoordinates policy = .ok scope ↔
      ∃ groupId version, project.declared.groupId.mapM (project.expand policy) = .ok groupId ∧
        project.declared.version.mapM (project.expand policy) = .ok version ∧
        scope = { project with
                  groupId := groupId.or project.groupId
                  version := version.or project.version } := by
  unfold substituteCoordinates
  simp only [bind_eq_ok, Except.ok.injEq]
  constructor
  · rintro ⟨groupId, hgroupId, version, hversion, rfl⟩
    exact ⟨groupId, version, hgroupId, hversion, rfl⟩
  · rintro ⟨groupId, version, hgroupId, hversion, rfl⟩
    exact ⟨groupId, hgroupId, version, hversion, rfl⟩

theorem declared_of_substituteCoordinates (h : project.substituteCoordinates policy = .ok scope) :
    scope.declared = project.declared := by
  obtain ⟨groupId, version, -, -, rfl⟩ := substituteCoordinates_eq_ok_iff.1 h
  rfl

theorem declaredProperties_with (project : Project) (modules : List String)
    (plugins effectivePlugins : List PluginConfig) (effectiveProperties : SortedMap String) :
    ({ project with modules, plugins, effectiveProperties,
                    effectivePlugins } : Project).declaredProperties =
      project.declaredProperties := by
  simp [declaredProperties, levels]

theorem declaredPlugins_with (project : Project) (modules : List String)
    (plugins effectivePlugins : List PluginConfig) (effectiveProperties : SortedMap String) :
    ({ project with modules, plugins, effectiveProperties,
                    effectivePlugins } : Project).levels.map (·.declared.plugins) =
      project.levels.map (·.declared.plugins) := by
  simp [levels]

theorem substitute_eq_ok_iff :
    project.substitute policy = .ok result ↔
      ∃ scope effectiveProperties modules plugins,
        project.substituteCoordinates policy = .ok scope ∧
        scope.declaredProperties.mapM (scope.expand policy) = .ok effectiveProperties ∧
        scope.declared.modules.mapM (scope.expand policy) = .ok modules ∧
        scope.declared.plugins.mapM (scope.expandPlugin policy) = .ok plugins ∧
        result = { scope with effectiveProperties, modules, plugins } := by
  unfold substitute
  simp only [bind_eq_ok, Except.ok.injEq]
  constructor
  · rintro ⟨scope, hscope, properties, hproperties, modules, hmodules, plugins, hplugins, rfl⟩
    exact ⟨scope, properties, modules, plugins, hscope, hproperties, hmodules, hplugins, rfl⟩
  · rintro ⟨scope, properties, modules, plugins, hscope, hproperties, hmodules, hplugins, rfl⟩
    exact ⟨scope, hscope, properties, hproperties, modules, hmodules, plugins, hplugins, rfl⟩

theorem applyPlugins_eq_ok_iff :
    project.applyPlugins policy = .ok result ↔
      ∃ effectivePlugins,
        (PluginConfig.merge (project.levels.map (·.declared.plugins))).mapM
          (project.expandPlugin policy) = .ok effectivePlugins ∧
        result = { project with effectivePlugins } := by
  unfold applyPlugins
  simp only [bind_eq_ok, Except.ok.injEq]
  constructor
  · rintro ⟨plugins, hplugins, rfl⟩
    exact ⟨plugins, hplugins, rfl⟩
  · rintro ⟨plugins, hplugins, rfl⟩
    exact ⟨plugins, hplugins, rfl⟩

theorem resolve_eq_ok_iff :
    resolve policy d parent = .ok result ↔
      ∃ inherited substituted, inherit d parent = .ok inherited ∧
        inherited.substitute policy = .ok substituted ∧
        substituted.applyPlugins policy = .ok result := by
  unfold resolve
  simp only [bind_eq_ok]
  constructor
  · rintro ⟨inherited, hinherited, substituted, hsubstituted, h⟩
    exact ⟨inherited, substituted, hinherited, hsubstituted, h⟩
  · rintro ⟨inherited, substituted, hinherited, hsubstituted, h⟩
    exact ⟨inherited, hinherited, substituted, hsubstituted, h⟩

/-- All that resolution does, when it succeeds: the scope is the inherited project with its
coordinates expanded, and the result holds the expanded texts. -/
theorem resolve_cases (h : resolve policy d parent = .ok result) :
    ∃ inherited scope effectiveProperties modules plugins effectivePlugins,
      inherit d parent = .ok inherited ∧
      inherited.substituteCoordinates policy = .ok scope ∧
      scope.declaredProperties.mapM (scope.expand policy) = .ok effectiveProperties ∧
      scope.declared.modules.mapM (scope.expand policy) = .ok modules ∧
      scope.declared.plugins.mapM (scope.expandPlugin policy) = .ok plugins ∧
      (PluginConfig.merge (scope.levels.map (·.declared.plugins))).mapM
        (scope.expandPlugin policy) = .ok effectivePlugins ∧
      result = { scope with effectiveProperties, modules, plugins, effectivePlugins } := by
  obtain ⟨inherited, substituted, hinherited, hsubstituted, happlied⟩ := resolve_eq_ok_iff.1 h
  obtain ⟨scope, properties, modules, plugins, hscope, hproperties, hmodules, hplugins, rfl⟩ :=
    substitute_eq_ok_iff.1 hsubstituted
  obtain ⟨effectivePlugins, heffective, rfl⟩ := applyPlugins_eq_ok_iff.1 happlied
  refine ⟨inherited, scope, properties, modules, plugins, effectivePlugins, hinherited, hscope,
    hproperties, hmodules, hplugins, ?_, rfl⟩
  rw [declaredPlugins_with] at heffective
  exact heffective

/-! ## Parts of a resolved project -/

/-- What resolution takes over from the descriptor and from inheritance. -/
theorem parts_of_resolve (h : resolve policy d parent = .ok result) :
    result.declared = d ∧ result.location = d.location ∧ result.artifactId = d.artifactId ∧
      ancestorsOf d parent = .ok result.ancestors := by
  obtain ⟨inherited, scope, _, _, _, _, hinherited, hscope, -, -, -, -, rfl⟩ := resolve_cases h
  obtain ⟨chain, hchain, -, rfl⟩ := inherit_eq_ok_iff.1 hinherited
  obtain ⟨groupId, version, -, -, rfl⟩ := substituteCoordinates_eq_ok_iff.1 hscope
  exact ⟨rfl, rfl, rfl, hchain⟩

theorem declared_of_resolve (h : resolve policy d parent = .ok result) : result.declared = d :=
  (parts_of_resolve h).1

theorem location_of_resolve (h : resolve policy d parent = .ok result) :
    result.location = d.location :=
  (parts_of_resolve h).2.1

theorem artifactId_of_resolve (h : resolve policy d parent = .ok result) :
    result.artifactId = d.artifactId :=
  (parts_of_resolve h).2.2.1

theorem ancestorsOf_of_resolve (h : resolve policy d parent = .ok result) :
    ancestorsOf d parent = .ok result.ancestors :=
  (parts_of_resolve h).2.2.2

/-- The effective properties of a resolved project are the declared ones of all its levels, expanded
in its own scope. -/
theorem effectiveProperties_of_resolve (h : resolve policy d parent = .ok result) :
    result.declaredProperties.mapM (result.expand policy) = .ok result.effectiveProperties := by
  obtain ⟨inherited, scope, _, _, _, _, -, -, hproperties, -, -, -, rfl⟩ := resolve_cases h
  rw [declaredProperties_with]
  exact hproperties

/-- The effective plugins of a resolved project are the declared ones of all its levels, merged and
expanded in its own scope. -/
theorem effectivePlugins_of_resolve (h : resolve policy d parent = .ok result) :
    (PluginConfig.merge (result.levels.map (·.declared.plugins))).mapM
      (result.expandPlugin policy) = .ok result.effectivePlugins := by
  obtain ⟨inherited, scope, _, _, _, _, -, -, -, -, -, hplugins, rfl⟩ := resolve_cases h
  rw [declaredPlugins_with]
  exact hplugins

end Reactor.Project

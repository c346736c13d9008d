import Reactor.Proofs.Project.AncestorView
import Reactor.Proofs.Project.EffectiveProperties

/-!
# Derived fields of ancestors

Modules, plugins, effective properties and effective plugins are worked out anew for every project.
Inheritance does take over the effective properties of the parent, but substitution replaces them.
So resolution cannot tell apart two supplied parents that differ in these fields only, at any depth
of their chains of ancestors: it fails in the same way below both, or it returns projects that
differ in these fields of their ancestors only.
-/

namespace Reactor.Project

variable {policy : MissingProperty} {d : Descriptor} {parent parent' project project' : Project}

mutual

/-- The project without the fields that are derived for it, and so for all its ancestors. -/
def bare : Project → Project
  | ⟨declared, modelVersion, groupId, artifactId, version, packaging, _, _, _, _, ancestors,
      location⟩ =>
    ⟨declared, modelVersion, groupId, artifactId, version, packaging, [], [], ∅, [],
      bareAll ancestors, location⟩

def bareAll : List Project → List Project
  | [] => []
  | first :: rest => first.bare :: bareAll rest

end

theorem bareAll_eq_map (chain : List Project) : bareAll chain = chain.map bare := by
  induction chain with
  | nil => rw [bareAll, List.map_nil]
  | cons first rest ih => rw [bareAll, ih, List.map_cons]

theorem bare_eq (project : Project) :
    project.bare = { project.mapAncestors bare with
      modules := [], plugins := [], effectiveProperties := ∅, effectivePlugins := [] } := by
  rw [mapAncestors, ← bareAll_eq_map]
  cases project
  rw [bare]

theorem isView_bare : IsView bare where
  declared project := by rw [bare_eq]; rfl
  modelVersion project := by rw [bare_eq]; rfl
  groupId project := by rw [bare_eq]; rfl
  artifactId project := by rw [bare_eq]; rfl
  version project := by rw [bare_eq]; rfl

theorem map_bare_eq_iff {chain chain' : List Project} : chain.map bare = chain'.map bare ↔
    List.Forall₂ (fun ancestor ancestor' ↦ ancestor.bare = ancestor'.bare) chain chain' := by
  rw [← List.forall₂_eq_eq_eq, List.forall₂_map_left_iff, List.forall₂_map_right_iff]

/-- Two projects are the same without their derived fields if they agree in every other field, and
if their ancestors are the same without theirs, entry by entry. -/
theorem bare_eq_bare_iff : project.bare = project'.bare ↔
    project.declared = project'.declared ∧ project.modelVersion = project'.modelVersion ∧
      project.groupId = project'.groupId ∧ project.artifactId = project'.artifactId ∧
      project.version = project'.version ∧ project.packaging = project'.packaging ∧
      project.location = project'.location ∧
      List.Forall₂ (fun ancestor ancestor' ↦ ancestor.bare = ancestor'.bare)
        project.ancestors project'.ancestors := by
  rw [bare_eq, bare_eq, ← map_bare_eq_iff]
  simp only [mapAncestors, mk.injEq]
  tauto

theorem map_bare_levels_of_bare_eq (h : parent.bare = parent'.bare) :
    parent.levels.map bare = parent'.levels.map bare := by
  obtain ⟨-, -, -, -, -, -, -, hancestors⟩ := bare_eq_bare_iff.1 h
  rw [levels, levels, List.map_append, List.map_append, map_bare_eq_iff.2 hancestors,
    List.map_singleton, List.map_singleton, h]

/-- Below parents that are the same without their derived fields, a descriptor fails in the same
way or is resolved to projects that are the same, the derived fields of their ancestors apart. Their
JSON documents and fingerprints are the same. -/
theorem resolve_of_bare_eq (policy : MissingProperty) (d : Descriptor)
    (h : parent.bare = parent'.bare) :
    (∃ failure, resolve policy d (some parent) = .error failure ∧
      resolve policy d (some parent') = .error failure) ∨
    ∃ project project', resolve policy d (some parent) = .ok project ∧
      resolve policy d (some parent') = .ok project' ∧
      project.mapAncestors bare = project'.mapAncestors bare ∧
      project.toJson.compact = project'.toJson.compact ∧
      project.fingerprint = project'.fingerprint := by
  have hsame : mapAncestors bare <$> resolve policy d (some parent) =
      mapAncestors bare <$> resolve policy d (some parent') :=
    mapAncestors_resolve isView_bare (map_bare_levels_of_bare_eq h)
  cases hresolve : resolve policy d (some parent) with
  | error failure =>
    rw [hresolve] at hsame
    exact .inl ⟨failure, rfl, map_eq_error.1 hsame.symm⟩
  | ok project =>
    rw [hresolve] at hsame
    obtain ⟨project', hresolve', hproject⟩ := map_eq_ok.1 hsame.symm
    refine .inr ⟨project, project', rfl, hresolve', hproject.symm, ?_, ?_⟩
    · rw [← toJson_mapAncestors isView_bare project, ← hproject, toJson_mapAncestors isView_bare]
    · rw [← fingerprint_mapAncestors isView_bare project, ← hproject,
        fingerprint_mapAncestors isView_bare]

/-- A project that takes up a property of the root by way of the leaf. -/
def templateTwig : Descriptor :=
  { (default : Descriptor) with
    artifactId := "twig"
    parentRef := some ⟨none, "leaf", none, none⟩
    properties := SortedMap.ofList [("log", "$\x7bout\x7d/log")]
    location := "/w/leaf/twig/project.json" }

/-- The leaf before any text of it or its root is expanded. -/
def templateLeafUnexpanded : Project :=
  extend templateLeaf [extend templateRoot []]

/-- Expanded or not, the leaf hands on the same properties. -/
theorem resolve_templateTwig :
    templateLeafProject.effectiveProperties ≠ templateLeafUnexpanded.effectiveProperties ∧
      templateLeafProject.bare = templateLeafUnexpanded.bare ∧
      ∃ project project', resolve .fail templateTwig (some templateLeafProject) = .ok project ∧
        resolve .fail templateTwig (some templateLeafUnexpanded) = .ok project' ∧
        project.mapAncestors bare = project'.mapAncestors bare ∧
        project.effectiveProperties.get? "log" = some "$\x7bbase\x7d/out/log" ∧
        project.fingerprint = project'.fingerprint := by
  have hbare : templateLeafProject.bare = templateLeafUnexpanded.bare := rfl
  have htwig : resolve .fail templateTwig (some templateLeafProject) = .ok _ := rfl
  refine ⟨?_, hbare, ?_⟩
  · intro hsame
    have hout := congrArg (·.get? "out") hsame
    exact absurd hout (by decide)
  · rcases resolve_of_bare_eq .fail templateTwig hbare with
      ⟨_, herror, -⟩ | ⟨project, project', hproject, hproject', hsame, -, hfingerprint⟩
    · rw [htwig] at herror
      cases herror
    · obtain rfl := Except.ok.inj (htwig.symm.trans hproject)
      exact ⟨_, project', hproject, hproject', hsame, rfl, hfingerprint⟩

end Reactor.Project

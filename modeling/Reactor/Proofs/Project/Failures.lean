import Reactor.Proofs.Placeholder
import Reactor.Proofs.Project.PluginTexts
import Reactor.Proofs.Project.Steps

/-!
# Failures of expanding a project

The steps of resolution that come after inheritance do nothing but expand texts. All of them fail
only as an expansion does: with a name that means nothing, or with a text that cannot be read. The
scopes of the expansions differ in coordinates, but not in what the levels declare.
-/

namespace Reactor.Project

variable {policy : MissingProperty} {project scope : Project} {P : Failure → Prop}

theorem failsOnly_expand
    (hundefined : ∀ name, scope.lookup name = none → P (.undefinedProperty scope.artifactId name))
    (hmalformed : ∀ path fault, P (.malformed path fault)) (text : String) :
    FailsOnly P (scope.expand policy text) := by
  unfold expand
  refine FailsOnly.mapError_of_failsOnly
    (Q := fun failure ↦ ∀ name, failure = .unresolved name → scope.lookup name = none) ?_ ?_
  · cases policy with
    | fail => exact Placeholder.failsOnly_substitute (by simp) (by simp) (by simp) text
    | keep => exact Placeholder.failsOnly_substituteLenient (by simp) (by simp) scope.lookup text
  intro failure hfailure
  cases failure with
  | unresolved name => exact hundefined name (hfailure name rfl)
  | unclosed position => exact hmalformed scope.location _
  | empty position => exact hmalformed scope.location _

/-- A scope in which texts of a project are expanded. -/
structure IsScope (project scope : Project) : Prop where
  declared : scope.declared = project.declared
  ancestors : scope.ancestors = project.ancestors

theorem isScope_of_substituteCoordinates (h : project.substituteCoordinates policy = .ok scope) :
    project.IsScope scope := by
  obtain ⟨groupId, version, -, -, rfl⟩ := substituteCoordinates_eq_ok_iff.1 h
  exact ⟨rfl, rfl⟩

theorem isScope_of_substitute {result : Project} (h : project.substitute policy = .ok result) :
    project.IsScope result := by
  obtain ⟨scope, _, _, _, hscope, -, -, -, rfl⟩ := substitute_eq_ok_iff.1 h
  obtain ⟨hdeclared, hancestors⟩ := isScope_of_substituteCoordinates hscope
  exact ⟨hdeclared, hancestors⟩

section Steps

variable (hundefined : ∀ scope, project.IsScope scope → ∀ name, scope.lookup name = none →
    P (.undefinedProperty scope.artifactId name))
  (hmalformed : ∀ path fault, P (.malformed path fault))

include hundefined hmalformed

theorem failsOnly_substituteCoordinates : FailsOnly P (project.substituteCoordinates policy) := by
  have hexpand (text : String) : FailsOnly P (project.expand policy text) :=
    failsOnly_expand (hundefined project ⟨rfl, rfl⟩) hmalformed text
  unfold substituteCoordinates
  apply FailsOnly.bind (.option_mapM fun text _ ↦ hexpand text)
  intro groupId _
  apply FailsOnly.bind (.option_mapM fun text _ ↦ hexpand text)
  intro version _
  exact .ok _

theorem failsOnly_substitute : FailsOnly P (project.substitute policy) := by
  have hexpand (scope : Project) (hscope : project.IsScope scope) (text : String) :
      FailsOnly P (scope.expand policy text) :=
    failsOnly_expand (hundefined scope hscope) hmalformed text
  unfold substitute
  apply (failsOnly_substituteCoordinates hundefined hmalformed).bind
  intro scope hscope
  have hscope : project.IsScope scope := isScope_of_substituteCoordinates hscope
  apply FailsOnly.bind (SortedMap.failsOnly_mapM fun entry _ ↦ hexpand scope hscope entry.2)
  intro properties _
  apply FailsOnly.bind (.mapM fun text _ ↦ hexpand scope hscope text)
  intro modules _
  apply FailsOnly.bind (failsOnly_expandPlugins fun text _ ↦
    hexpand _ ⟨hscope.declared, hscope.ancestors⟩ text)
  intro plugins _
  exact .ok _

theorem failsOnly_applyPlugins : FailsOnly P (project.applyPlugins policy) := by
  have hexpand (text : String) : FailsOnly P (project.expand policy text) :=
    failsOnly_expand (hundefined project ⟨rfl, rfl⟩) hmalformed text
  unfold applyPlugins
  apply FailsOnly.bind (failsOnly_expandPlugins fun text _ ↦ hexpand text)
  intro plugins _
  exact .ok _

end Steps

/-- Resolution fails as inheritance does, or as the expansion of a text of the inherited project
does. -/
theorem failsOnly_resolve {d : Descriptor} {supplied : Option Project}
    (hinherit : FailsOnly P (inherit d supplied))
    (hundefined : ∀ inherited scope, inherit d supplied = .ok inherited → inherited.IsScope scope →
      ∀ name, scope.lookup name = none → P (.undefinedProperty scope.artifactId name))
    (hmalformed : ∀ path fault, P (.malformed path fault)) :
    FailsOnly P (resolve policy d supplied) := by
  unfold resolve
  apply hinherit.bind
  intro inherited hinherited
  have hsubstitute : FailsOnly P (inherited.substitute policy) :=
    failsOnly_substitute (hundefined inherited · hinherited) hmalformed
  apply hsubstitute.bind
  intro substituted hsubstituted
  obtain ⟨hdeclared, hancestors⟩ := isScope_of_substitute hsubstituted
  refine failsOnly_applyPlugins (fun scope hscope ↦ ?_) hmalformed
  apply hundefined inherited scope hinherited
  exact ⟨hscope.declared.trans hdeclared, hscope.ancestors.trans hancestors⟩

end Reactor.Project

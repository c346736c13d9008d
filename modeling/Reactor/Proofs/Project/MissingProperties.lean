import Reactor.Proofs.Placeholder
import Reactor.Proofs.Project.PluginTexts
import Reactor.Project.Resolution

/-!
# Missing properties

A reference to an undefined property is a failure or stays in the text, as the policy says. The two
policies expand texts in different ways, but they differ only where the strict one fails. So all
that is expanded on the way to a resolved project comes out the same, and so does the project.
-/

namespace Reactor.Project

/-- A text that expands strictly has nothing that is kept. -/
theorem carriesOver_expand (scope : Project) (text : String) :
    CarriesOver (scope.expand .fail text) (scope.expand .keep text) :=
  (Placeholder.carriesOver_substituteLenient scope.lookup text).mapError _

theorem carriesOver_expandPlugin (scope : Project) (plugin : PluginConfig) :
    CarriesOver (scope.expandPlugin .fail plugin) (scope.expandPlugin .keep plugin) := by
  have hvalue (value : Value) : CarriesOver (value.mapStringsM (scope.expand .fail))
      (value.mapStringsM (scope.expand .keep)) :=
    Value.carriesOver_mapStringsM (carriesOver_expand scope) value
  have hoptions := SortedMap.carriesOver_mapM hvalue plugin.options
  exact hoptions.bind fun options _ ↦ .refl _

theorem carriesOver_substituteCoordinates (project : Project) :
    CarriesOver (project.substituteCoordinates .fail) (project.substituteCoordinates .keep) := by
  have hcoordinate := CarriesOver.option_mapM (carriesOver_expand project)
  unfold substituteCoordinates
  apply (hcoordinate project.declared.groupId).bind
  intro groupId _
  apply (hcoordinate project.declared.version).bind
  intro version _
  exact .refl _

theorem carriesOver_substitute (project : Project) :
    CarriesOver (project.substitute .fail) (project.substitute .keep) := by
  unfold substitute
  apply (carriesOver_substituteCoordinates project).bind
  intro scope _
  apply (SortedMap.carriesOver_mapM (carriesOver_expand scope) scope.declaredProperties).bind
  intro effectiveProperties _
  apply (CarriesOver.mapM (carriesOver_expand scope) scope.declared.modules).bind
  intro modules _
  apply (CarriesOver.mapM (carriesOver_expandPlugin _) scope.declared.plugins).bind
  intro plugins _
  exact .refl _

theorem carriesOver_applyPlugins (project : Project) :
    CarriesOver (project.applyPlugins .fail) (project.applyPlugins .keep) := by
  unfold applyPlugins
  apply (CarriesOver.mapM (carriesOver_expandPlugin project) _).bind
  intro effectivePlugins _
  exact .refl _

/-- A project that is resolved without a missing property is resolved in the same way if missing
properties are kept. -/
theorem carriesOver_resolve (d : Descriptor) (supplied : Option Project) :
    CarriesOver (resolve .fail d supplied) (resolve .keep d supplied) := by
  unfold resolve
  apply (CarriesOver.refl (inherit d supplied)).bind
  intro inherited _
  apply (carriesOver_substitute inherited).bind
  intro substituted _
  exact carriesOver_applyPlugins substituted

end Reactor.Project

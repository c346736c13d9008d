import Reactor.Proofs.Project.Ancestors
import Reactor.Proofs.Project.Failures
import Reactor.Tree.Aggregation

/-!
# Failures of a single project

Loading a descriptor and resolving it fail in ways that say nothing about where the project stands
in a tree of modules. Only aggregation, which wraps the failures of modules and watches the
deadline, mentions positions.
-/

namespace Reactor

/-- The failures that mention no position in a tree of modules. -/
inductive Failure.IsLocal : Failure → Prop
  | notFound (path : String) : IsLocal (.notFound path)
  | malformed (path : String) (fault : Fault) : IsLocal (.malformed path fault)
  | cyclic (chain : List String) : IsLocal (.cyclic chain)
  | unresolvedParent (project : String) (parent : ParentRef) :
    IsLocal (.unresolvedParent project parent)
  | undefinedProperty (project name : String) : IsLocal (.undefinedProperty project name)

namespace Loader

variable {loader : Loader} {fs : FileSystem} {P : Failure → Prop}
  (hmalformed : ∀ path fault, P (.malformed path fault))

include hmalformed

theorem failsOnly_read (file text : String) : FailsOnly P (loader.read fs file text) := by
  unfold read
  split
  · exact .error (hmalformed file .noFormat)
  · refine FailsOnly.bind (.mapError fun failure ↦ hmalformed file _) fun value _ ↦ ?_
    exact .mapError fun fault ↦ hmalformed file fault

/-- A descriptor cannot be loaded if there is no file, or if something is wrong with what it
holds. -/
theorem failsOnly_load (hnotFound : ∀ path, P (.notFound path)) (path : String) :
    FailsOnly P (loader.load fs path) := by
  unfold load
  split
  · exact .error (hnotFound path)
  · split
    · exact .error (hnotFound path)
    · exact failsOnly_read hmalformed _ _

end Loader

/-- Resolving one project fails only locally. -/
theorem Project.failsOnly_isLocal_resolve {policy : MissingProperty} (d : Descriptor)
    (supplied : Option Project) : FailsOnly Failure.IsLocal (resolve policy d supplied) := by
  apply failsOnly_resolve
  · apply failsOnly_inherit
    · intro ref _
      exact .unresolvedParent d.artifactId ref
    · intro names
      exact .cyclic names
  · intro _ scope _ _ name _
    exact .undefinedProperty scope.artifactId name
  · exact .malformed

/-- The project of a module fails as the loading of its descriptor or its resolution does, or since
a sibling has its artifact id. -/
theorem Aggregation.failsOnly_moduleProject {a : Aggregation} {P : Failure → Prop}
    {project : Project} (hnotFound : ∀ path, P (.notFound path))
    (hmalformed : ∀ path fault, P (.malformed path fault))
    (hresolve : ∀ path d, a.loader.load a.fs path = .ok d →
      FailsOnly P (Project.resolve a.config.missingProperty d (some project)))
    (siblings : List String) (file : String) :
    FailsOnly P (a.moduleProject project siblings file) := by
  unfold moduleProject loadModule
  apply FailsOnly.bind
  · apply (Loader.failsOnly_load hmalformed hnotFound file).bind
    intro d hload
    exact hresolve file d hload
  · intro child _
    split
    · exact .error (hmalformed child.location _)
    · exact .ok child

end Reactor

import Reactor.Project.Inheritance
import Reactor.Project.Substitution

/-!
# Resolving one project

A descriptor becomes a project with its effective configuration in three steps: it inherits from its
ancestors, its placeholders are expanded, and the plugins of all levels are merged.
-/

namespace Reactor.Project

def resolve (policy : MissingProperty) (d : Descriptor) (parent : Option Project) :
    Except Failure Project := do
  let inherited ← inherit d parent
  let substituted ← inherited.substitute policy
  substituted.applyPlugins policy

end Reactor.Project

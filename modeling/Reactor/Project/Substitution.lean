import Reactor.Project.Basic
import Reactor.Project.PluginMerge

/-!
# Placeholders in projects

Within a project a name means, in this order: the property that the project declares, the one that
its nearest declaring ancestor declares, or a value built in for every project. Substitution is one
pass: the value of a property is inserted as declared, even if it has placeholders of its own.
-/

namespace Reactor.Project

def builtin? (project : Project) (name : String) : Option String :=
  match name with
  | "project.artifactId" => some project.artifactId
  | "project.groupId" => project.groupId
  | "project.version" => project.version
  | "project.packaging" => some project.packaging.name
  | "project.basedir" => some project.baseDir
  | "project.parent.artifactId" => project.parent?.map (·.artifactId)
  | "project.parent.version" => project.parent?.bind (·.version)
  | _ => none

/-- The declaration of a property that is nearest to the project. -/
def declaredProperty? (project : Project) (name : String) : Option String :=
  project.selfAndAncestors.findSome? (·.declared.properties.get? name)

/-- What a name means within a project. -/
def lookup (project : Project) (name : String) : Option String :=
  (project.declaredProperty? name).or (project.builtin? name)

def expand (scope : Project) (policy : MissingProperty) (text : String) : Except Failure String :=
  let expanded :=
    match policy with
    | .fail => Placeholder.substitute scope.lookup text
    | .keep => Placeholder.substituteLenient scope.lookup text
  expanded.mapError fun failure ↦
    match failure with
    | .unresolved name => .undefinedProperty scope.artifactId name
    | failure => .malformed scope.location (.placeholder text failure)

/-- The properties that a project and its ancestors declare, each as the nearest level declares
it. -/
def declaredProperties (project : Project) : SortedMap String :=
  project.levels.foldl (fun properties level ↦ properties.overlay level.declared.properties) ∅

def expandPlugin (scope : Project) (policy : MissingProperty) (plugin : PluginConfig) :
    Except Failure PluginConfig := do
  let options ← plugin.options.mapM (Value.mapStringsM (scope.expand policy))
  .ok { plugin with options }

/-- The project with its coordinates expanded: a group id and a version that it declares. Inherited
ones have been expanded where they were declared. -/
def substituteCoordinates (project : Project) (policy : MissingProperty) :
    Except Failure Project := do
  let groupId ← project.declared.groupId.mapM (project.expand policy)
  let version ← project.declared.version.mapM (project.expand policy)
  .ok { project with
        groupId := groupId.or project.groupId
        version := version.or project.version }

/-- The project with its placeholders expanded: first its coordinates, and then, in the scope of
the project with these coordinates, its properties, module names and declared plugins. All of them
are rebuilt from what the descriptors declare. -/
def substitute (project : Project) (policy : MissingProperty) : Except Failure Project := do
  let scope ← project.substituteCoordinates policy
  let effectiveProperties ← scope.declaredProperties.mapM (scope.expand policy)
  let modules ← scope.declared.modules.mapM (scope.expand policy)
  let project := { scope with effectiveProperties, modules }
  let plugins ← project.declared.plugins.mapM (project.expandPlugin policy)
  .ok { project with plugins }

/-- The project with the plugins of all its levels merged, and expanded in its own scope. -/
def applyPlugins (project : Project) (policy : MissingProperty) : Except Failure Project := do
  let merged := PluginConfig.merge (project.levels.map (·.declared.plugins))
  let effectivePlugins ← merged.mapM (project.expandPlugin policy)
  .ok { project with effectivePlugins }

end Reactor.Project

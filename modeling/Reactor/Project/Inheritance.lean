import Reactor.Project.Basic

/-!
# Inheritance

A descriptor that refers to a parent inherits from the nearest project, among the supplied parent
and that project's ancestors, that the reference designates. The ancestors of the result are that
project and its ancestors. A descriptor without a reference inherits nothing, whatever parent is
supplied.
-/

namespace Reactor.Project

/-- The longest initial part of a chain of ancestors that ends with a project designated by a
reference. The chain is given in reverse order, and so is the result. -/
def ancestorsFrom? (ref : ParentRef) : List Project → Option (List Project)
  | [] => none
  | nearest :: rest =>
    if nearest.isReferencedBy ref then some (nearest :: rest) else ancestorsFrom? ref rest

/-- The ancestors, the root first, of a descriptor that is resolved below a supplied parent. -/
def ancestorsOf (d : Descriptor) (parent : Option Project) : Except Failure (List Project) :=
  match d.parentRef with
  | none => .ok []
  | some ref =>
    match parent.bind fun parent ↦ ancestorsFrom? ref parent.selfAndAncestors with
    | some chain => .ok chain.reverse
    | none => .error (.unresolvedParent d.artifactId ref)

/-- The part of a chain of ancestors from the first project with the given coordinates on. -/
def repeatedFrom (groupId : Option String) (artifactId : String) (chain : List Project) :
    List Project :=
  chain.dropWhile fun ancestor ↦ ancestor.artifactId ≠ artifactId || ancestor.groupId ≠ groupId

/-- The project that a descriptor becomes below its ancestors, before any placeholder is expanded
and any plugin merged. Coordinates and model version that it does not state come from the nearest
ancestor. -/
def extend (d : Descriptor) (chain : List Project) : Project :=
  let nearest := chain.getLast?
  { declared := d
    modelVersion := d.modelVersion.or (nearest.bind (·.modelVersion))
    groupId := d.groupId.or (nearest.bind (·.groupId))
    artifactId := d.artifactId
    version := d.version.or (nearest.bind (·.version))
    packaging := d.packaging
    modules := d.modules
    plugins := d.plugins
    effectiveProperties := (nearest.elim ∅ (·.effectiveProperties)).overlay d.properties
    effectivePlugins := []
    ancestors := chain
    location := d.location }

def inherit (d : Descriptor) (parent : Option Project) : Except Failure Project := do
  let chain ← ancestorsOf d parent
  let project := extend d chain
  match repeatedFrom project.groupId project.artifactId chain with
  | [] => .ok project
  | cycle => .error (.cyclic (cycle.map (·.artifactId) ++ [d.artifactId]))

end Reactor.Project

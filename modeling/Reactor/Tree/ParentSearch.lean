import Reactor.Descriptor.Loader
import Reactor.Project.Resolution

/-!
# Looking for a parent

The parent of a project that no other project aggregates is looked for in the file system, at the
path that the parent reference gives. Its own parent is looked for in the same way, so a row of
directories, each the parent of the next, gives the whole chain of ancestors. A descriptor that
comes up twice on the way is a cycle.
-/

namespace Reactor

/-- How the parent of a root project is looked for. -/
inductive ParentSource where
  /-- Not at all. -/
  | nowhere
  /-- At the relative path of the parent reference. -/
  | relativePath
  deriving DecidableEq, Repr

namespace ParentSource

/-- The artifact id of a descriptor that was visited before, and then the projects from the last
visited one back to its first visit. -/
def cycleOf (visited : List Visit) (d : Descriptor) : List String :=
  d.artifactId :: ((visited.dropWhile (·.location ≠ d.location)).reverse.map (·.artifactId))

/-- The parent of a descriptor, the last one visited, together with all its ancestors. There is none
if no descriptor is at the path of the reference, or one that the reference does not designate. -/
def search (fs : FileSystem) (loader : Loader) (policy : MissingProperty) (visited : List Visit)
    (d : Descriptor) : Except Failure (Option Project) :=
  match d.parentRef with
  | none => .ok none
  | some ref =>
    match _hload : loader.load fs (Path.join d.baseDir ref.searchPath) with
    | .error (.notFound _) => .ok none
    | .error failure => .error failure
    | .ok candidate =>
      if _hnew : FileSystem.onBranch visited candidate.location then
        .error (.cyclic (cycleOf visited candidate))
      else do
        let grandparent ← search fs loader policy
          (visited ++ [⟨candidate.location, candidate.artifactId⟩]) candidate
        let parent ← Project.resolve policy candidate grandparent
        .ok (if parent.isReferencedBy ref then some parent else none)
termination_by fs.unvisited visited
decreasing_by
  exact FileSystem.unvisited_append_lt (Loader.location_mem_files (by assumption))
    (by simpa using _hnew)

def locate (source : ParentSource) (fs : FileSystem) (loader : Loader) (policy : MissingProperty)
    (d : Descriptor) : Except Failure (Option Project) :=
  match source with
  | nowhere => .ok none
  | relativePath => search fs loader policy [⟨fs.canonical d.location, d.artifactId⟩] d

end ParentSource

end Reactor

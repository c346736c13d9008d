import Reactor.Descriptor.Loader
import Reactor.Project.Resolution
import Reactor.Tree.Basic
import Reactor.Workspace.Branch

/-!
# Aggregation

Starting from a resolved project, each of its modules is located below the project's directory,
loaded, resolved with the project as parent, and aggregated in turn. Failures of modules are
recorded or fail the tree, as the settings say. A module that leads back to a descriptor on its own
branch, and a deadline that has passed, fail the tree in either case.

The recursion ends since the locations on a branch are different regular files.
-/

namespace Reactor

/-- The readings of a clock: the time that has elapsed when the aggregating project at a path turns
to the module at an index. -/
abbrev Clock := ModulePath → Nat → Nanoseconds

/-- What aggregation works with. -/
structure Aggregation where
  fs : FileSystem
  loader : Loader
  config : Config
  clock : Clock

namespace Aggregation

/-- The failure of an aggregating project whose deadline has passed when it turns to a module. -/
def overdue? (a : Aggregation) (path : ModulePath) (index : Nat) : Option Failure :=
  a.config.deadline.bind fun deadline ↦
    let elapsed := a.clock path index
    if deadline ≤ elapsed then some (.timeout path elapsed) else none

/-- The artifact ids of a branch, followed by that of the entry that a location repeats. -/
def cycleOf (branch : List Visit) (location : String) : List String :=
  branch.map (·.artifactId) ++
    ((branch.find? (·.location = location)).map (·.artifactId)).toList

/-- The path at which a module of a project is looked for. -/
def moduleDirectory (project : Project) (name : String) : String :=
  Path.join project.baseDir name

def loadModule (a : Aggregation) (project : Project) (file : String) : Except Failure Project := do
  let d ← a.loader.load a.fs file
  Project.resolve a.config.missingProperty d (some project)

/-- The project of a module, which must not share its artifact id with an earlier sibling. -/
def moduleProject (a : Aggregation) (project : Project) (siblings : List String) (file : String) :
    Except Failure Project := do
  let child ← a.loadModule project file
  if siblings.contains child.artifactId then
    .error (.malformed child.location (.siblingArtifactId child.artifactId))
  else .ok child

theorem unvisited_lt_of_locate {a : Aggregation} {branch : List Visit}
    {path file artifactId : String}
    (hfile : a.loader.locate? a.fs path = some file)
    (hnew : ¬FileSystem.onBranch branch (a.fs.canonical file) = true) :
    a.fs.unvisited (branch ++ [⟨a.fs.canonical file, artifactId⟩]) < a.fs.unvisited branch := by
  have hisFile := Loader.isFile_of_locate hfile
  cases hcanonical : a.fs.canonical? file with
  | none =>
    unfold FileSystem.canonical? at hcanonical
    unfold FileSystem.isFile FileSystem.content? at hisFile
    simp only [Option.map_eq_none_iff] at hcanonical
    simp [hcanonical] at hisFile
  | some location =>
    have hlocation : a.fs.canonical file = location := by
      simp [FileSystem.canonical, hcanonical]
    rw [hlocation] at hnew ⊢
    exact FileSystem.unvisited_append_lt (FileSystem.mem_files_of_isFile hisFile hcanonical)
      (by simpa using hnew)

mutual

/-- The tree of a resolved project, which is the last on its branch. -/
def subtree (a : Aggregation) (branch : List Visit) (path : ModulePath) (project : Project) :
    Except Failure ProjectTree := do
  let modules ← a.entries branch path project 0 [] project.modules
  .ok (.ofProject path project modules)
termination_by (a.fs.unvisited branch, 2 * project.modules.length + 1)

/-- The outcomes of the modules of a project, of which the first has the given index. The artifact
ids of its siblings that were resolved are already taken. -/
def entries (a : Aggregation) (branch : List Visit) (path : ModulePath) (project : Project)
    (index : Nat) (siblings : List String) : List String → Except Failure (List ModuleEntry)
  | [] => .ok []
  | name :: rest =>
    match a.overdue? path index with
    | some failure => .error failure
    | none =>
      match _hfile : a.loader.locate? a.fs (moduleDirectory project name) with
      | none =>
        a.record branch path project index siblings name rest
          (.notFound (moduleDirectory project name))
      | some file =>
        if _hnew : FileSystem.onBranch branch (a.fs.canonical file) then
          .error (.cyclic (cycleOf branch (a.fs.canonical file)))
        else
          match a.moduleProject project siblings file with
          | .error failure => a.record branch path project index siblings name rest failure
          | .ok child => do
            let tree ← a.subtree (branch ++ [⟨a.fs.canonical file, child.artifactId⟩])
              (path.child name) child
            let others ← a.entries branch path project (index + 1) (child.artifactId :: siblings)
              rest
            .ok (.resolved tree :: others)
termination_by names => (a.fs.unvisited branch, 2 * names.length)
decreasing_by
  all_goals first
    | exact Prod.Lex.left _ _ (unvisited_lt_of_locate (by assumption) (by assumption))
    | exact Prod.Lex.right _ (by simp; try omega)

def record (a : Aggregation) (branch : List Visit) (path : ModulePath) (project : Project)
    (index : Nat) (siblings : List String) (name : String) (rest : List String)
    (cause : Failure) : Except Failure (List ModuleEntry) :=
  let failure := Failure.module (path.child name) cause
  match a.config.errorMode with
  | .failFast => .error failure
  | .collectAll => do
    let others ← a.entries branch path project (index + 1) siblings rest
    .ok (.failed name (path.child name) failure :: others)
termination_by (a.fs.unvisited branch, 2 * rest.length + 1)

end

def tree (a : Aggregation) (project : Project) : Except Failure ProjectTree :=
  a.subtree [⟨a.fs.canonical project.location, project.artifactId⟩]
    (ModulePath.root project.artifactId) project

end Aggregation

end Reactor

import Reactor.Proofs.Tree.ModuleCycles

/-!
# The nesting of aggregation

Aggregation follows names that are read from files and may lead anywhere. It ends because every
branch that it passes down holds different canonical locations, all of them but the root's those of
regular files, so that no branch is longer than there are regular files, the root not counted.

To say that the nesting has a limit, aggregation is run once more with the limit in the place of
the argument that ends the recursion. A run that reaches its limit has no outcome. With one level
for each regular file and one for the root, the outcome is that of aggregation without a limit.
-/

namespace Reactor.Aggregation

variable {a : Aggregation} {branch : List Visit} {path : ModulePath} {root project child : Project}
  {index limit : Nat} {siblings names : List String} {name location : String}

/-! ## The branches that are passed down -/

/-- The calls of the recursion below a root: with which branch the tree of which project is built,
and for which position. -/
inductive Descends (a : Aggregation) (root : Project) :
    List Visit → ModulePath → Project → Prop
  | root : Descends a root (a.rootBranch root) (.root root.artifactId) root
  | module {branch : List Visit} {path : ModulePath} {project child : Project}
    {siblings : List String} {name location : String} (habove : Descends a root branch path project)
    (hname : name ∈ project.modules)
    (hturn : a.turn branch project siblings name = .resolved location child) :
    Descends a root (branch ++ [⟨location, child.artifactId⟩]) (path.child name) child

/-- A turn to a resolved module extends a branch by the location of another regular file. -/
theorem properBranch_of_turn (h : a.fs.ProperBranch branch)
    (hturn : a.turn branch project siblings name = .resolved location child) :
    a.fs.ProperBranch (branch ++ [⟨location, child.artifactId⟩]) := by
  obtain ⟨file, hfile, hlocation, hnew, -⟩ := turn_eq_resolved hturn
  have hisFile : a.fs.isFile file = true := Loader.isFile_of_locate hfile
  obtain ⟨canonical, hcanonical, hregular⟩ := FileSystem.exists_canonical?_of_isFile hisFile
  have hsame : canonical = location := by
    rw [← hlocation, FileSystem.canonical, hcanonical, Option.getD_some]
  rw [hsame] at hregular
  exact h.append hregular hnew

theorem Descends.properBranch (h : a.Descends root branch path project) :
    a.fs.ProperBranch branch := by
  induction h with
  | root => exact .singleton a.fs _
  | module _ _ hturn ih => exact properBranch_of_turn ih hturn

/-- The position of a call has one name for each entry of the branch. -/
theorem Descends.length_eq (h : a.Descends root branch path project) :
    branch.length = path.segments.length := by
  induction h with
  | root => rfl
  | module _ _ _ ih => simp [ModulePath.child, ih]

/-! ## Aggregation with a limit -/

/-- What a turn to a module leads to, when `build` makes the tree of a project at a position and
with a branch, and `later` the outcomes of the modules after this one. -/
def afterTurn (a : Aggregation)
    (build : List Visit → ModulePath → Project → Limited Failure ProjectTree)
    (later : List String → Limited Failure (List ModuleEntry)) (branch : List Visit)
    (path : ModulePath) (siblings : List String) (name : String) :
    Turn → Limited Failure (List ModuleEntry)
  | .cyclic chain => throw (.cyclic chain)
  | .failed cause =>
    let failure := Failure.module (path.child name) cause
    match a.config.errorMode with
    | .failFast => throw failure
    | .collectAll => do
      let others ← later siblings
      return .failed name (path.child name) failure :: others
  | .resolved location child => do
    let tree ← build (branch ++ [⟨location, child.artifactId⟩]) (path.child name) child
    let others ← later (child.artifactId :: siblings)
    return .resolved tree :: others

/-- The outcomes of the modules of a project from one on, when `build` makes the tree of a project
at a position and with a branch. -/
def entriesVia (a : Aggregation)
    (build : List Visit → ModulePath → Project → Limited Failure ProjectTree)
    (branch : List Visit) (path : ModulePath) (project : Project) (index : Nat)
    (siblings : List String) : List String → Limited Failure (List ModuleEntry)
  | [] => pure []
  | name :: rest =>
    match a.overdue? path index with
    | some failure => throw failure
    | none =>
      a.afterTurn build (a.entriesVia build branch path project (index + 1) · rest) branch path
        siblings name (a.turn branch project siblings name)

/-- The tree of a project when at most `limit` calls may be nested, this one included. -/
def subtreeWithin (a : Aggregation) :
    Nat → List Visit → ModulePath → Project → Limited Failure ProjectTree
  | 0, _, _, _ => .exceeded
  | limit + 1, branch, path, project => do
    let modules ← a.entriesVia (a.subtreeWithin limit) branch path project 0 [] project.modules
    return .ofProject path project modules

/-- The tree of a resolved project when at most `limit` calls may be nested. -/
def treeWithin (a : Aggregation) (limit : Nat) (project : Project) : Limited Failure ProjectTree :=
  a.subtreeWithin limit (a.rootBranch project) (.root project.artifactId) project

/-- If the trees of the modules stay within their limits, so do the outcomes of the modules. -/
theorem entriesVia_eq {build : List Visit → ModulePath → Project → Limited Failure ProjectTree}
    (hbuild : ∀ siblings name location child,
      a.turn branch project siblings name = .resolved location child →
      build (branch ++ [⟨location, child.artifactId⟩]) (path.child name) child =
        .within (a.subtree (branch ++ [⟨location, child.artifactId⟩]) (path.child name) child)) :
    a.entriesVia build branch path project index siblings names =
      .within (a.entries branch path project index siblings names) := by
  induction names generalizing index siblings with
  | nil =>
    rw [entries_nil]
    rfl
  | cons name rest ih =>
    rw [entriesVia, entries_cons]
    cases a.overdue? path index with
    | some failure => rfl
    | none =>
      cases hturn : a.turn branch project siblings name with
      | cyclic chain => rfl
      | failed cause =>
        cases hmode : a.config.errorMode with
        | failFast =>
          simp only [afterTurn, hmode, record_failFast a _ _ _ _ _ hmode]
          rfl
        | collectAll =>
          simp only [afterTurn, hmode, record_collectAll a _ _ _ _ _ hmode, ih]
          exact Limited.map_within _ _
      | resolved location child =>
        simp only [afterTurn, hbuild siblings name location child hturn, ih]
        exact Limited.within_bind fun tree _ ↦ Limited.map_within _ _

/-- On a proper branch, a limit that leaves one call for each regular file which is not on the
branch is never reached. -/
theorem subtreeWithin_eq (hbranch : a.fs.ProperBranch branch)
    (hlimit : a.fs.regularFiles.card + 2 ≤ branch.length + limit) :
    a.subtreeWithin limit branch path project = .within (a.subtree branch path project) := by
  induction limit generalizing branch path project with
  | zero =>
    have hlength := hbranch.length_le
    omega
  | succ limit ih =>
    have hmodules := @entriesVia_eq a branch path project 0 [] project.modules
      (a.subtreeWithin limit) fun siblings name location child hturn ↦ by
        apply ih (properBranch_of_turn hbranch hturn)
        rw [List.length_append, List.length_singleton]
        omega
    rw [subtreeWithin, hmodules, subtree_eq]
    exact Limited.map_within _ _

/-- Every branch that aggregation passes down holds different canonical locations, those of regular
files after the first one, and so there are at most as many nested calls as regular files and one
more. With this limit, aggregation has the outcome that it has without a limit. -/
theorem tree_nesting (a : Aggregation) (root : Project) :
    (∀ branch path project, a.Descends root branch path project →
      (branch.map (·.location)).Nodup ∧
        (∀ visit ∈ branch.tail, a.fs.IsRegular visit.location) ∧
        branch.length = path.segments.length ∧
        branch.length ≤ a.fs.regularFiles.card + 1) ∧
      a.treeWithin (a.fs.regularFiles.card + 1) root = .within (a.tree root) := by
  constructor
  · intro branch path project h
    have hproper := h.properBranch
    exact ⟨hproper.nodup, hproper.regular, h.length_eq, hproper.length_le⟩
  · have hroot : a.fs.ProperBranch (a.rootBranch root) := .singleton a.fs _
    have hlength : (a.rootBranch root).length = 1 := rfl
    apply subtreeWithin_eq hroot
    omega

end Reactor.Aggregation

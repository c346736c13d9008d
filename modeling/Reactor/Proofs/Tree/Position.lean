import Reactor.Proofs.LocalFailures
import Reactor.Proofs.Tree.Turn

/-!
# Trees at another position

A tree of modules tells its position in the path of every node, of every failed entry and of every
failure that is wrapped in the path of its module. Aggregating the same project at another position,
on a branch with fewer descriptors, gives the same tree with the positions exchanged, as long as the
tree succeeded without a module cycle in the first place.
-/

namespace Reactor

/-- The path with an initial part replaced by another one. -/
def ModulePath.rebase (old new path : ModulePath) : ModulePath :=
  if old.segments <+: path.segments then
    ⟨new.segments ++ path.segments.drop old.segments.length⟩
  else path

def Failure.mapPaths (f : ModulePath → ModulePath) : Failure → Failure
  | .module path cause => .module (f path) (cause.mapPaths f)
  | .timeout path elapsed => .timeout (f path) elapsed
  | failure => failure

theorem Failure.IsLocal.mapPaths {failure : Failure} (h : failure.IsLocal)
    (f : ModulePath → ModulePath) : failure.mapPaths f = failure := by
  cases h <;> rfl

namespace ProjectTree

mutual

def mapPaths (f : ModulePath → ModulePath) : ProjectTree → ProjectTree
  | ⟨path, fingerprint, project, modules⟩ =>
    ⟨f path, fingerprint, project, mapEntryPaths f modules⟩

def mapEntryPaths (f : ModulePath → ModulePath) : List ModuleEntry → List ModuleEntry
  | [] => []
  | .resolved tree :: rest => .resolved (mapPaths f tree) :: mapEntryPaths f rest
  | .failed name path failure :: rest =>
    .failed name (f path) (failure.mapPaths f) :: mapEntryPaths f rest

end

theorem mapPaths_ofProject (f : ModulePath → ModulePath) (path : ModulePath) (project : Project)
    (entries : List ModuleEntry) :
    (ofProject path project entries).mapPaths f =
      ofProject (f path) project (mapEntryPaths f entries) := by
  rw [ofProject, mapPaths, ofProject]

theorem mapEntryPaths_nil (f : ModulePath → ModulePath) : mapEntryPaths f [] = [] := by
  rw [mapEntryPaths]

theorem mapEntryPaths_resolved (f : ModulePath → ModulePath) (tree : ProjectTree)
    (others : List ModuleEntry) :
    mapEntryPaths f (.resolved tree :: others) =
      .resolved (tree.mapPaths f) :: mapEntryPaths f others := by
  rw [mapEntryPaths]

theorem mapEntryPaths_failed (f : ModulePath → ModulePath) (name : String) (path : ModulePath)
    (failure : Failure) (others : List ModuleEntry) :
    mapEntryPaths f (.failed name path failure :: others) =
      .failed name (f path) (failure.mapPaths f) :: mapEntryPaths f others := by
  rw [mapEntryPaths]

end ProjectTree

/-- A change of positions that takes all positions at and below one path to those at and below
another. -/
def ModulePath.Moves (f : ModulePath → ModulePath) (old new : ModulePath) : Prop :=
  ∀ names, f ⟨old.segments ++ names⟩ = ⟨new.segments ++ names⟩

namespace ModulePath.Moves

variable {f : ModulePath → ModulePath} {old new : ModulePath}

theorem rebase (old new : ModulePath) : Moves (ModulePath.rebase old new) old new := by
  intro names
  rw [ModulePath.rebase, if_pos (List.prefix_append _ _), List.drop_left]

theorem self (h : Moves f old new) : f old = new := by
  simpa using h []

theorem child (h : Moves f old new) (name : String) :
    Moves f (old.child name) (new.child name) := by
  intro names
  simpa [ModulePath.child] using h (name :: names)

end ModulePath.Moves

namespace Aggregation

variable {a : Aggregation} {branch branch' : List Visit} {path path' : ModulePath}
  {project : Project} {siblings : List String} {name : String}

/-- The cause for which a module fails mentions no position. -/
theorem isLocal_of_turn {cause : Failure}
    (h : a.turn branch project siblings name = .failed cause) : cause.IsLocal := by
  rcases turn_eq_failed h with ⟨path, rfl⟩ | ⟨file, hfailure⟩
  · exact .notFound path
  · exact failsOnly_moduleProject .notFound .malformed
      (fun _ d _ ↦ Project.failsOnly_isLocal_resolve d (some project)) siblings file cause hfailure

/-- Whether everything on one branch is on another one, too. -/
def Within (branch' branch : List Visit) : Prop :=
  ∀ location, FileSystem.onBranch branch' location = true →
    FileSystem.onBranch branch location = true

theorem Within.append (h : Within branch' branch) (visits : List Visit) :
    Within (branch' ++ visits) (branch ++ visits) := by
  intro location hlocation
  rw [FileSystem.onBranch, List.any_append, Bool.or_eq_true] at hlocation ⊢
  exact hlocation.imp_left (h location)

/-- A module that leads to no cycle leads to none on a branch with fewer descriptors. -/
theorem turn_within (hbranch : Within branch' branch) (clock : Clock)
    (h : ∀ chain, a.turn branch project siblings name ≠ .cyclic chain) :
    ({ a with clock } : Aggregation).turn branch' project siblings name =
      a.turn branch project siblings name := by
  have hclock : ({ a with clock } : Aggregation).turn branch' project siblings name =
      a.turn branch' project siblings name := turn_congr rfl rfl rfl _ _ _ _
  rw [hclock]
  unfold turn at h ⊢
  cases hfile : a.loader.locate? a.fs (moduleDirectory project name) with
  | none => rfl
  | some file =>
    simp only [hfile] at h ⊢
    by_cases hold : FileSystem.onBranch branch (a.fs.canonical file) = true
    · rw [if_pos hold] at h
      exact absurd rfl (h _)
    · have hnew := mt (hbranch (a.fs.canonical file)) hold
      rw [if_neg hold, if_neg hnew]

/-- Aggregation at another position. The induction runs along the first aggregation. Its branch may
hold descriptors that the second one lacks, since they have led to no cycle. -/
theorem entries_move (hcollect : a.config.errorMode = .collectAll)
    (hdeadline : a.config.deadline = none) (clock : Clock) {f : ModulePath → ModulePath}
    {branch branch' : List Visit} {path path' : ModulePath} {project : Project} {index : Nat}
    {siblings names : List String} {entries : List ModuleEntry}
    (h : a.entries branch path project index siblings names = .ok entries)
    (hbranch : Within branch' branch) (hf : ModulePath.Moves f path path') :
    ({ a with clock } : Aggregation).entries branch' path' project index siblings names =
      .ok (ProjectTree.mapEntryPaths f entries) := by
  induction branch, path, project, index, siblings, names using entries_induction a
    generalizing branch' path' entries with
  | nil branch path project index siblings =>
    rw [entries_nil] at h ⊢
    obtain rfl := Except.ok.inj h
    rw [ProjectTree.mapEntryPaths_nil]
  | cons branch path project index siblings name rest hrest hchild =>
    have hdeadline' : ({ a with clock } : Aggregation).config.deadline = none := hdeadline
    rw [entries_cons, overdue?_eq_none hdeadline] at h
    rw [entries_cons, overdue?_eq_none hdeadline']
    cases hturn : a.turn branch project siblings name with
    | cyclic chain =>
      rw [hturn] at h
      cases h
    | failed cause =>
      rw [turn_within hbranch clock (by simp [hturn]), hturn]
      simp only [hturn, record_collectAll a _ _ _ _ _ hcollect] at h
      simp only [record_collectAll { a with clock } _ _ _ _ _ hcollect]
      obtain ⟨others, hothers, rfl⟩ := map_eq_ok.1 h
      have hcause := (isLocal_of_turn hturn).mapPaths f
      rw [hrest _ hothers hbranch hf, ProjectTree.mapEntryPaths_failed, Failure.mapPaths, hcause,
        (hf.child name).self]
      rfl
    | resolved location child =>
      rw [turn_within hbranch clock (by simp [hturn]), hturn]
      simp only [hturn] at h
      obtain ⟨tree, htree, h⟩ := bind_eq_ok.1 h
      obtain ⟨others, hothers, h⟩ := bind_eq_ok.1 h
      obtain rfl := Except.ok.inj h
      rw [subtree_eq] at htree
      obtain ⟨modules, hmodules, rfl⟩ := map_eq_ok.1 htree
      have hmoved := hchild location child hturn hmodules (hbranch.append _) (hf.child name)
      simp only [subtree_eq, hmoved, hrest _ hothers hbranch hf]
      rw [ProjectTree.mapEntryPaths_resolved, ProjectTree.mapPaths_ofProject, (hf.child name).self]
      rfl

/-- The tree of a project at another position. -/
theorem subtree_move (hcollect : a.config.errorMode = .collectAll)
    (hdeadline : a.config.deadline = none) (clock : Clock) {tree : ProjectTree}
    (h : a.subtree branch path project = .ok tree) (hbranch : Within branch' branch) :
    ({ a with clock } : Aggregation).subtree branch' path' project =
      .ok (tree.mapPaths (ModulePath.rebase path path')) := by
  have hf := ModulePath.Moves.rebase path path'
  rw [subtree_eq] at h ⊢
  obtain ⟨modules, hmodules, rfl⟩ := map_eq_ok.1 h
  rw [entries_move hcollect hdeadline clock hmodules hbranch hf, ProjectTree.mapPaths_ofProject,
    hf.self]
  rfl

end Aggregation

end Reactor

import Reactor.Proofs.Project.AncestorView
import Reactor.Proofs.Tree.Turn

/-!
# What counts of an aggregating project

A module finds the project that aggregates it, and all levels above, as its supplied parent. Below
parents that are the same in all that counts for projects below them, every turn ends in the same
way, and so the outcomes of modules are the same in all that counts.
-/

namespace Reactor

namespace ProjectTree

mutual

/-- The tree with what counts of the ancestors of its projects. -/
def condense : ProjectTree → ProjectTree
  | ⟨path, fingerprint, project, modules⟩ =>
    ⟨path, fingerprint, project.condense, condenseEntries modules⟩

def condenseEntries : List ModuleEntry → List ModuleEntry
  | [] => []
  | .resolved tree :: rest => .resolved (condense tree) :: condenseEntries rest
  | .failed name path failure :: rest => .failed name path failure :: condenseEntries rest

end

/-- Entries tell nothing but what counts of the ancestors. -/
theorem entriesToJson_condenseEntries (entries : List ModuleEntry) :
    entriesToJson (condenseEntries entries) = entriesToJson entries := by
  match entries with
  | [] => rw [condenseEntries]
  | .resolved ⟨path, fingerprint, project, modules⟩ :: rest =>
    rw [condenseEntries, condense, entriesToJson, entriesToJson, Project.toJson_condense,
      entriesToJson_condenseEntries modules, entriesToJson_condenseEntries rest]
  | .failed name path failure :: rest =>
    rw [condenseEntries, entriesToJson, entriesToJson, entriesToJson_condenseEntries rest]

theorem condense_ofProject (path : ModulePath) (project : Project) (entries : List ModuleEntry) :
    (ofProject path project entries).condense =
      ofProject path project.condense (condenseEntries entries) := by
  rw [ofProject, condense, ofProject, Project.fingerprint_condense]

end ProjectTree

open ProjectTree (condenseEntries)

namespace Aggregation

variable {a : Aggregation} {branch : List Visit} {path : ModulePath} {project project' : Project}
  {index : Nat} {siblings names : List String} {name file : String}

def Turn.condense : Turn → Turn
  | .resolved location child => .resolved location child.condense
  | turn => turn

theorem condense_moduleProject (h : project.SameBelow project') :
    Project.condense <$> a.moduleProject project siblings file =
      Project.condense <$> a.moduleProject project' siblings file := by
  have hnatural (project : Project) : Project.condense <$> a.moduleProject project siblings file =
      (do
        let d ← a.loader.load a.fs file
        let child ← Project.condense <$>
          Project.resolve a.config.missingProperty d (some project)
        if siblings.contains child.artifactId then
          .error (.malformed child.location (.siblingArtifactId child.artifactId))
        else .ok child) := by
    unfold moduleProject loadModule
    simp only [map_bind, bind_map_left, bind_assoc]
    congr 1
    funext d
    congr 1
    funext child
    rw [show child.condense.artifactId = child.artifactId from rfl]
    split <;> rfl
  simp only [hnatural, Project.condense_resolve h]

theorem condense_turn (h : project.SameBelow project') :
    (a.turn branch project siblings name).condense =
      (a.turn branch project' siblings name).condense := by
  have hdirectory : moduleDirectory project name = moduleDirectory project' name := by
    rw [moduleDirectory, moduleDirectory, Project.baseDir, Project.baseDir, h.declared]
  unfold turn
  rw [hdirectory]
  cases a.loader.locate? a.fs (moduleDirectory project' name) with
  | none => rfl
  | some file =>
    have hproject := @condense_moduleProject a _ _ siblings file h
    dsimp only
    split
    · rfl
    · cases hchild : a.moduleProject project siblings file with
      | error cause =>
        rw [hchild] at hproject
        cases hchild' : a.moduleProject project' siblings file with
        | error cause' =>
          rw [hchild'] at hproject
          exact congrArg Turn.failed (Except.error.inj hproject)
        | ok child' =>
          rw [hchild'] at hproject
          cases hproject
      | ok child =>
        rw [hchild] at hproject
        obtain ⟨child', hchild', hsame⟩ := map_eq_ok.1 hproject.symm
        rw [hchild']
        exact congrArg (Turn.resolved _) hsame.symm

theorem Turn.of_condense_eq_failed {turn : Turn} {cause : Failure}
    (h : turn.condense = .failed cause) : turn = .failed cause := by
  cases turn <;> cases h
  rfl

theorem Turn.of_condense_eq_cyclic {turn : Turn} {chain : List String}
    (h : turn.condense = .cyclic chain) : turn = .cyclic chain := by
  cases turn <;> cases h
  rfl

theorem Turn.of_condense_eq_resolved {turn : Turn} {location : String} {child : Project}
    (h : turn.condense = .resolved location child) :
    ∃ found, turn = .resolved location found ∧ found.condense = child := by
  cases turn <;> cases h
  exact ⟨_, rfl, rfl⟩

theorem condense_subtree_of_entries {b : Aggregation}
    (hproject : project.condense = project'.condense)
    (h : condenseEntries <$> a.entries branch path project 0 [] project.modules =
      condenseEntries <$> b.entries branch path project' 0 [] project.modules) :
    ProjectTree.condense <$> a.subtree branch path project =
      ProjectTree.condense <$> b.subtree branch path project' := by
  have hnatural (a : Aggregation) (project : Project) :
      ProjectTree.condense <$> a.subtree branch path project =
        (ProjectTree.ofProject path project.condense ·) <$>
          (condenseEntries <$> a.entries branch path project 0 [] project.modules) := by
    rw [subtree_eq, Functor.map_map, Functor.map_map]
    simp only [ProjectTree.condense_ofProject]
  have hmodules : project.modules = project'.modules := congrArg (·.modules) hproject
  rw [hnatural, hnatural, hproject, h, hmodules]

theorem condense_failed (name : String) (path : ModulePath) (failure : Failure)
    (others : Except Failure (List ModuleEntry)) :
    condenseEntries <$> ((.failed name path failure :: ·) <$> others) =
      (.failed name path failure :: ·) <$> (condenseEntries <$> others) := by
  rw [Functor.map_map, Functor.map_map]
  simp only [condenseEntries]

theorem condense_resolved (tree : Except Failure ProjectTree)
    (others : Except Failure (List ModuleEntry)) :
    condenseEntries <$> (do
      let tree ← tree
      let others ← others
      .ok (.resolved tree :: others)) = (do
      let tree ← ProjectTree.condense <$> tree
      let others ← condenseEntries <$> others
      .ok (.resolved tree :: others)) := by
  simp only [map_bind, bind_map_left]
  rfl

/-- The outcomes of modules depend on their parent only as far as it counts for projects below, and
without a deadline they do not depend on the clock. -/
theorem condense_entries (hdeadline : a.config.deadline = none) (clock : Clock)
    (h : project.SameBelow project') (index' : Nat) :
    condenseEntries <$> a.entries branch path project index siblings names =
      condenseEntries <$> entries { a with clock } branch path project' index' siblings names := by
  have hdeadline' : ({ a with clock } : Aggregation).config.deadline = none := hdeadline
  induction branch, path, project, index, siblings, names using entries_induction a
    generalizing project' index' with
  | nil branch path project index siblings => rw [entries_nil, entries_nil]
  | cons branch path project index siblings name rest hrest hchild =>
    have hturn := @condense_turn a branch _ _ siblings name h
    rw [entries_cons, entries_cons, overdue?_eq_none hdeadline, overdue?_eq_none hdeadline',
      @turn_congr { a with clock } a rfl rfl rfl]
    cases hfound : a.turn branch project siblings name with
    | cyclic chain =>
      rw [hfound] at hturn
      rw [Turn.of_condense_eq_cyclic hturn.symm]
    | failed cause =>
      rw [hfound] at hturn
      rw [Turn.of_condense_eq_failed hturn.symm]
      cases hmode : a.config.errorMode with
      | failFast =>
        simp only [record_failFast a _ _ _ _ _ hmode,
          record_failFast { a with clock } _ _ _ _ _ hmode]
      | collectAll =>
        simp only [record_collectAll a _ _ _ _ _ hmode,
          record_collectAll { a with clock } _ _ _ _ _ hmode]
        rw [condense_failed, condense_failed, hrest siblings h]
    | resolved location child =>
      rw [hfound] at hturn
      obtain ⟨child', hfound', hsame⟩ := Turn.of_condense_eq_resolved hturn.symm
      rw [hfound']
      have hartifactId : child'.artifactId = child.artifactId := congrArg (·.artifactId) hsame
      have hbelow := hchild location child hfound (.of_condense hsame.symm) 0
      have hsubtree := condense_subtree_of_entries hsame.symm hbelow
      simp only [condense_resolved]
      rw [hsubtree, hrest (child.artifactId :: siblings) h, hartifactId]

end Aggregation

end Reactor

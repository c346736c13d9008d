import Reactor.Proofs.Descriptor.Loading
import Reactor.Proofs.Outcome
import Reactor.Tree.Aggregation

/-!
# One turn of aggregation

An aggregating project turns to its modules one after the other. What it finds at one module does
not depend on the position in the tree, on the clock, or on what becomes of failures. The recursion
of aggregation is stated once in terms of such turns, together with its induction principle, so that
runs with different settings can be compared turn by turn.
-/

namespace Reactor.Aggregation

/-- What an aggregating project finds when it turns to a module. -/
inductive Turn where
  /-- The module fails for the given cause. -/
  | failed (cause : Failure)
  /-- The module leads back to its own branch. -/
  | cyclic (chain : List String)
  /-- The module is resolved. Its descriptor is at the given canonical location. -/
  | resolved (location : String) (child : Project)

/-- The turn of a project to one of its modules, when the artifact ids of some siblings are
taken. -/
def turn (a : Aggregation) (branch : List Visit) (project : Project) (siblings : List String)
    (name : String) : Turn :=
  match a.loader.locate? a.fs (moduleDirectory project name) with
  | none => .failed (.notFound (moduleDirectory project name))
  | some file =>
    if FileSystem.onBranch branch (a.fs.canonical file) then
      .cyclic (cycleOf branch (a.fs.canonical file))
    else
      match a.moduleProject project siblings file with
      | .error cause => .failed cause
      | .ok child => .resolved (a.fs.canonical file) child

/-- All that a turn to a resolved module says about it. -/
theorem turn_eq_resolved {a : Aggregation} {branch : List Visit} {project child : Project}
    {siblings : List String} {name location : String}
    (h : a.turn branch project siblings name = .resolved location child) :
    ∃ file, a.loader.locate? a.fs (moduleDirectory project name) = some file ∧
      a.fs.canonical file = location ∧ FileSystem.onBranch branch location = false ∧
      a.moduleProject project siblings file = .ok child := by
  unfold turn at h
  cases hfile : a.loader.locate? a.fs (moduleDirectory project name) with
  | none => simp [hfile] at h
  | some file =>
    simp only [hfile] at h
    split at h
    · cases h
    · rename_i hnew
      cases hchild : a.moduleProject project siblings file with
      | error cause => simp [hchild] at h
      | ok found =>
        simp only [hchild, Turn.resolved.injEq] at h
        obtain ⟨rfl, rfl⟩ := h
        exact ⟨file, rfl, rfl, by simpa using hnew, hchild⟩

/-- A module whose file is found off the branch and whose project is built is resolved. -/
theorem turn_of_moduleProject {a : Aggregation} {branch : List Visit} {project child : Project}
    {siblings : List String} {name file : String}
    (hfile : a.loader.locate? a.fs (moduleDirectory project name) = some file)
    (hnew : FileSystem.onBranch branch (a.fs.canonical file) = false)
    (hchild : a.moduleProject project siblings file = .ok child) :
    a.turn branch project siblings name = .resolved (a.fs.canonical file) child := by
  unfold turn
  simp only [hfile, hnew, hchild, if_neg Bool.false_ne_true]

/-- A module fails if its path leads nowhere. -/
theorem turn_of_missing {a : Aggregation} {branch : List Visit} {project : Project}
    {siblings : List String} {name : String}
    (h : a.fs.resolve? (moduleDirectory project name) = none) :
    a.turn branch project siblings name = .failed (.notFound (moduleDirectory project name)) := by
  unfold turn
  rw [Loader.locate?_of_missing h]

/-- A module fails since there is no file, or as the building of its project does. -/
theorem turn_eq_failed {a : Aggregation} {branch : List Visit} {project : Project}
    {siblings : List String} {name : String} {cause : Failure}
    (h : a.turn branch project siblings name = .failed cause) :
    (∃ path, cause = .notFound path) ∨
      ∃ file, a.moduleProject project siblings file = .error cause := by
  unfold turn at h
  split at h
  · exact .inl ⟨_, (Turn.failed.inj h).symm⟩
  · split at h
    · cases h
    · split at h
      · rename_i hfailure
        obtain rfl := Turn.failed.inj h
        exact .inr ⟨_, hfailure⟩
      · cases h

/-- A turn depends on the files, the loader and the treatment of undefined properties only. -/
theorem turn_congr {a b : Aggregation} (hfs : a.fs = b.fs) (hloader : a.loader = b.loader)
    (hpolicy : a.config.missingProperty = b.config.missingProperty) (branch : List Visit)
    (project : Project) (siblings : List String) (name : String) :
    a.turn branch project siblings name = b.turn branch project siblings name := by
  unfold turn moduleProject loadModule
  rw [hfs, hloader, hpolicy]

theorem overdue?_eq_none {a : Aggregation} (h : a.config.deadline = none) (path : ModulePath)
    (index : Nat) : a.overdue? path index = none := by
  simp [overdue?, h]

/-- What an overdue project fails with. -/
theorem overdue?_eq_some {a : Aggregation} {path : ModulePath} {index : Nat} {failure : Failure}
    (h : a.overdue? path index = some failure) : ∃ elapsed, failure = .timeout path elapsed := by
  obtain ⟨deadline, -, hfailure⟩ := Option.bind_eq_some_iff.1 h
  obtain ⟨-, hfailure⟩ := Option.ite_none_right_eq_some.1 hfailure
  exact ⟨_, (Option.some.inj hfailure).symm⟩

variable (a : Aggregation) (branch : List Visit) (path : ModulePath) (project : Project)
  (index : Nat) (siblings : List String)

theorem subtree_eq :
    a.subtree branch path project =
      (ProjectTree.ofProject path project ·) <$>
        a.entries branch path project 0 [] project.modules := by
  rw [subtree]
  rfl

theorem entries_nil : a.entries branch path project index siblings [] = .ok [] := by
  rw [entries]

/-- Aggregation of the modules from one on, in terms of the turn to that module. -/
theorem entries_cons (name : String) (rest : List String) :
    a.entries branch path project index siblings (name :: rest) =
      match a.overdue? path index with
      | some failure => .error failure
      | none =>
        match a.turn branch project siblings name with
        | .failed cause => a.record branch path project index siblings name rest cause
        | .cyclic chain => .error (.cyclic chain)
        | .resolved location child => (do
          let tree ← a.subtree (branch ++ [⟨location, child.artifactId⟩]) (path.child name) child
          let others ← a.entries branch path project (index + 1) (child.artifactId :: siblings) rest
          .ok (.resolved tree :: others)) := by
  rw [entries]
  unfold turn
  cases a.overdue? path index with
  | some failure => rfl
  | none =>
    cases hfile : a.loader.locate? a.fs (moduleDirectory project name) with
    | none => rfl
    | some file =>
      by_cases hnew : FileSystem.onBranch branch (a.fs.canonical file) = true
      · simp [hnew]
      · cases hchild : a.moduleProject project siblings file <;> simp [hnew, hchild]

theorem record_failFast (h : a.config.errorMode = .failFast) (name : String) (rest : List String)
    (cause : Failure) :
    a.record branch path project index siblings name rest cause =
      .error (.module (path.child name) cause) := by
  rw [record, h]

theorem record_collectAll (h : a.config.errorMode = .collectAll) (name : String)
    (rest : List String) (cause : Failure) :
    a.record branch path project index siblings name rest cause =
      (.failed name (path.child name) (.module (path.child name) cause) :: ·) <$>
        a.entries branch path project (index + 1) siblings rest := by
  rw [record, h]
  rfl

theorem unvisited_lt_of_turn {location : String} {child : Project} {name : String}
    (h : a.turn branch project siblings name = .resolved location child) :
    a.fs.unvisited (branch ++ [⟨location, child.artifactId⟩]) < a.fs.unvisited branch := by
  obtain ⟨file, hfile, rfl, hnew, -⟩ := turn_eq_resolved h
  exact unvisited_lt_of_locate hfile (by simp [hnew])

/-- Induction along aggregation. What holds of the modules after the first one, and of the modules
of the project that the first one is resolved to, has to carry over to the whole list. -/
theorem entries_induction
    {motive : List Visit → ModulePath → Project → Nat → List String → List String → Prop}
    (nil : ∀ branch path project index siblings, motive branch path project index siblings [])
    (cons : ∀ branch path project index siblings name rest,
      (∀ siblings', motive branch path project (index + 1) siblings' rest) →
      (∀ location child, a.turn branch project siblings name = .resolved location child →
        motive (branch ++ [⟨location, child.artifactId⟩]) (path.child name) child 0 []
          child.modules) →
      motive branch path project index siblings (name :: rest))
    (branch : List Visit) (path : ModulePath) (project : Project) (index : Nat)
    (siblings names : List String) : motive branch path project index siblings names :=
  match names with
  | [] => nil branch path project index siblings
  | name :: rest =>
    cons branch path project index siblings name rest
      (fun siblings' ↦ entries_induction nil cons branch path project (index + 1) siblings' rest)
      (fun location child _h ↦ entries_induction nil cons (branch ++ [⟨location, child.artifactId⟩])
        (path.child name) child 0 [] child.modules)
termination_by (a.fs.unvisited branch, names.length)
decreasing_by
  · exact Prod.Lex.right _ (by simp)
  · exact Prod.Lex.left _ _ (unvisited_lt_of_turn a branch project siblings _h)

/-! ## Resolved modules -/

variable {a branch path project index siblings} {tree child : ProjectTree}

theorem moduleProject_eq_ok_iff {file : String} {found : Project} :
    a.moduleProject project siblings file = .ok found ↔
      a.loadModule project file = .ok found ∧ found.artifactId ∉ siblings := by
  unfold moduleProject
  rw [bind_eq_ok]
  constructor
  · rintro ⟨loaded, hloaded, h⟩
    split at h
    · cases h
    · rename_i hnew
      obtain rfl := Except.ok.inj h
      exact ⟨hloaded, by simpa using hnew⟩
  · rintro ⟨hloaded, hnew⟩
    exact ⟨found, hloaded, by simp [hnew]⟩

theorem moduleProject_eq_ok {file : String} {found : Project}
    (h : a.moduleProject project siblings file = .ok found) :
    ∃ d, a.loader.load a.fs file = .ok d ∧
      Project.resolve a.config.missingProperty d (some project) = .ok found :=
  bind_eq_ok.1 (moduleProject_eq_ok_iff.1 h).1

/-- A tree tells where it was aggregated and for which project. -/
theorem parts_of_subtree (h : a.subtree branch path project = .ok tree) :
    tree.path = path ∧ tree.project = project := by
  rw [subtree_eq] at h
  obtain ⟨modules, -, rfl⟩ := map_eq_ok.1 h
  exact ⟨rfl, rfl⟩

/-- The outcomes of modules of which the first has no modules of its own, when nothing runs out of
time. -/
theorem entries_cons_of_leaf {name location : String} {rest : List String}
    {others : List ModuleEntry} (hdeadline : a.config.deadline = none)
    (hturn : a.turn branch project siblings name = .resolved location child.project)
    (hpath : child = .ofProject (path.child name) child.project [])
    (hleaf : child.project.modules = [])
    (hrest : a.entries branch path project (index + 1) (child.project.artifactId :: siblings) rest =
      .ok others) :
    a.entries branch path project index siblings (name :: rest) = .ok (.resolved child :: others) := by
  have hchild : a.subtree (branch ++ [⟨location, child.project.artifactId⟩]) (path.child name)
      child.project = .ok child := by
    rw [subtree_eq, hleaf, entries_nil, hpath]
    rfl
  rw [entries_cons, overdue?_eq_none hdeadline, hturn]
  exact bind_eq_ok.2 ⟨child, hchild, bind_eq_ok.2 ⟨others, hrest, rfl⟩⟩

/-- The outcomes of modules of which the first fails, when failures are recorded and nothing runs out
of time. -/
theorem entries_cons_of_failed {name : String} {rest : List String} {cause : Failure}
    {others : List ModuleEntry} (hdeadline : a.config.deadline = none)
    (hmode : a.config.errorMode = .collectAll)
    (hturn : a.turn branch project siblings name = .failed cause)
    (hrest : a.entries branch path project (index + 1) siblings rest = .ok others) :
    a.entries branch path project index siblings (name :: rest) =
      .ok (.failed name (path.child name) (.module (path.child name) cause) :: others) := by
  rw [entries_cons, overdue?_eq_none hdeadline, hturn]
  simp only [record_collectAll a _ _ _ _ _ hmode, hrest]
  rfl

/-- How the modules from one on come to outcomes: the first of them fails and its failure is
recorded, or it is resolved and its own tree is built. -/
theorem entries_cons_eq_ok {name : String} {rest : List String} {outcomes : List ModuleEntry}
    (h : a.entries branch path project index siblings (name :: rest) = .ok outcomes) :
    (∃ cause others, a.turn branch project siblings name = .failed cause ∧
        a.config.errorMode = .collectAll ∧
        a.entries branch path project (index + 1) siblings rest = .ok others ∧
        outcomes = .failed name (path.child name) (.module (path.child name) cause) :: others) ∨
      ∃ location tree others, a.turn branch project siblings name =
          .resolved location tree.project ∧
        a.subtree (branch ++ [⟨location, tree.project.artifactId⟩]) (path.child name)
          tree.project = .ok tree ∧
        a.entries branch path project (index + 1) (tree.project.artifactId :: siblings) rest =
          .ok others ∧
        outcomes = .resolved tree :: others := by
  rw [entries_cons] at h
  split at h
  · cases h
  · cases hturn : a.turn branch project siblings name with
    | cyclic chain => simp [hturn] at h
    | failed cause =>
      simp only [hturn] at h
      cases hmode : a.config.errorMode with
      | failFast => simp [record_failFast a _ _ _ _ _ hmode] at h
      | collectAll =>
        rw [record_collectAll a _ _ _ _ _ hmode] at h
        obtain ⟨others, hothers, rfl⟩ := map_eq_ok.1 h
        exact .inl ⟨cause, others, rfl, rfl, hothers, rfl⟩
    | resolved location child =>
      simp only [hturn] at h
      obtain ⟨tree, htree, h⟩ := bind_eq_ok.1 h
      obtain ⟨others, hothers, h⟩ := bind_eq_ok.1 h
      obtain rfl := Except.ok.inj h
      obtain ⟨-, rfl⟩ := parts_of_subtree htree
      exact .inr ⟨location, tree, others, rfl, htree, hothers, rfl⟩

/-- Every tree among the outcomes of modules was aggregated after a turn to its module. -/
theorem exists_turn_of_mem {names : List String} {outcomes : List ModuleEntry}
    (h : a.entries branch path project index siblings names = .ok outcomes)
    (hchild : .resolved child ∈ outcomes) :
    ∃ name siblings location,
      a.turn branch project siblings name = .resolved location child.project ∧
      a.subtree (branch ++ [⟨location, child.project.artifactId⟩]) (path.child name)
        child.project = .ok child := by
  induction names generalizing index siblings outcomes with
  | nil =>
    rw [entries_nil] at h
    obtain rfl := Except.ok.inj h
    cases hchild
  | cons name rest ih =>
    rcases entries_cons_eq_ok h with ⟨cause, others, -, -, hothers, rfl⟩ |
      ⟨location, tree, others, hturn, htree, hothers, rfl⟩
    · rcases List.mem_cons.1 hchild with hchild | hchild
      · cases hchild
      · exact ih hothers hchild
    · rcases List.mem_cons.1 hchild with hchild | hchild
      · obtain rfl := ModuleEntry.resolved.inj hchild
        exact ⟨name, siblings, location, hturn, htree⟩
      · exact ih hothers hchild

theorem exists_turn_of_mem_children (h : a.subtree branch path project = .ok tree)
    (hchild : child ∈ tree.children) :
    ∃ name siblings location,
      a.turn branch project siblings name = .resolved location child.project ∧
      a.subtree (branch ++ [⟨location, child.project.artifactId⟩]) (path.child name)
        child.project = .ok child := by
  rw [subtree_eq] at h
  obtain ⟨modules, hmodules, rfl⟩ := map_eq_ok.1 h
  obtain ⟨entry, hentry, htree⟩ := List.mem_filterMap.1 hchild
  cases entry with
  | failed name path failure => cases htree
  | resolved tree =>
    obtain rfl := Option.some.inj htree
    exact exists_turn_of_mem hmodules hentry

end Reactor.Aggregation

import Reactor.Proofs.Tree.Invariant
import Reactor.Proofs.Tree.Nesting
import Reactor.Proofs.Tree.Walk

/-!
# Deadlines

Before an aggregating project turns to a module, it looks at the clock. A deadline that has passed
ends the whole run, whatever becomes of other failures, and nothing else depends on the clock. So a
run with a deadline comes to what it comes to without one, unless it is cut short, and then its
failure names the project that looked at the clock.
-/

namespace Reactor

/-- Whether a failure is that of a run which was out of time. -/
def Failure.IsTimeout (failure : Failure) : Prop :=
  ∃ path elapsed, failure = .timeout path elapsed

theorem Failure.IsLocal.not_isTimeout {failure : Failure} (h : failure.IsLocal) :
    ¬failure.rootCause.IsTimeout := by
  rintro ⟨path, elapsed, htimeout⟩
  cases h <;> cases htimeout

namespace Aggregation

variable {a b : Aggregation} {root project : Project} {branch : List Visit} {path : ModulePath}
  {tree : ProjectTree}

/-! ## Cutting a run short -/

/-- Whether a failure is that of a project below the root which finds the deadline passed when it
turns to one of its modules. -/
def RunsOut (a : Aggregation) (root : Project) (failure : Failure) : Prop :=
  ∃ branch path project index, a.Descends root branch path project ∧
    index < project.modules.length ∧ a.overdue? path index = some failure

section Runs

variable (hfs : a.fs = b.fs) (hloader : a.loader = b.loader)
  (hpolicy : a.config.missingProperty = b.config.missingProperty)
  (hmode : a.config.errorMode = b.config.errorMode) (hdeadline : b.config.deadline = none)

include hfs hloader hpolicy hmode hdeadline

/-- From any module on, a run comes to what it comes to without a deadline, unless it is cut
short. -/
theorem entries_sameUnless (root : Project) (branch : List Visit) (path : ModulePath)
    (project : Project) (index : Nat) (siblings names : List String)
    (hproject : a.Descends root branch path project) (hnames : project.modules.drop index = names) :
    SameUnless (a.RunsOut root) (a.entries branch path project index siblings names)
      (b.entries branch path project index siblings names) := by
  induction branch, path, project, index, siblings, names using entries_induction a with
  | nil branch path project index siblings =>
    rw [entries_nil, entries_nil]
    exact .refl _
  | cons branch path project index siblings name rest hrest hchild =>
    have hindex : index < project.modules.length := by
      by_contra hlong
      rw [List.drop_eq_nil_of_le (Nat.le_of_not_lt hlong)] at hnames
      cases hnames
    have hlater : project.modules.drop (index + 1) = rest := by
      rw [← List.tail_drop, hnames, List.tail_cons]
    have hname : name ∈ project.modules :=
      List.mem_of_mem_drop (hnames ▸ List.mem_cons_self)
    rw [entries_cons, entries_cons, overdue?_eq_none hdeadline, ← turn_congr hfs hloader hpolicy]
    cases hoverdue : a.overdue? path index with
    | some failure => exact .error ⟨branch, path, project, index, hproject, hindex, hoverdue⟩
    | none =>
      cases hturn : a.turn branch project siblings name with
      | cyclic chain => exact .refl _
      | failed cause =>
        cases hfailing : a.config.errorMode with
        | failFast =>
          simp only [record_failFast a _ _ _ _ _ hfailing,
            record_failFast b _ _ _ _ _ (hmode ▸ hfailing)]
          exact .refl _
        | collectAll =>
          simp only [record_collectAll a _ _ _ _ _ hfailing,
            record_collectAll b _ _ _ _ _ (hmode ▸ hfailing)]
          exact (hrest siblings hproject hlater).map _
      | resolved location child =>
        have hmodules := hchild location child hturn (.module hproject hname hturn) List.drop_zero
        apply SameUnless.bind
        · rw [subtree_eq, subtree_eq]
          exact hmodules.map _
        · intro tree
          exact (hrest _ hproject hlater).bind fun others ↦ .refl _

theorem tree_sameUnless (root : Project) :
    SameUnless (a.RunsOut root) (a.tree root) (b.tree root) := by
  have hmodules := entries_sameUnless hfs hloader hpolicy hmode hdeadline root _ _ root 0 []
    root.modules .root List.drop_zero
  unfold tree
  rw [subtree_eq, subtree_eq, ← hfs]
  exact hmodules.map _

/-- Without deadlines, runs do not depend on the clock. -/
theorem tree_congr (hdeadline' : a.config.deadline = none) (root : Project) :
    a.tree root = b.tree root := by
  rcases tree_sameUnless hfs hloader hpolicy hmode hdeadline root with
    hsame | ⟨failure, ⟨branch, path, project, index, -, -, hoverdue⟩, -⟩
  · exact hsame
  · rw [overdue?_eq_none hdeadline'] at hoverdue
    cases hoverdue

end Runs

/-! ## Where the failure can stand -/

/-- The failures of a run are not wrapped around that of a deadline. -/
theorem reports_timeout (a : Aggregation) (root : Project) :
    Reports (fun failure ↦ failure.rootCause.IsTimeout → failure.IsTimeout)
      ProjectTree.failureList (a.tree root) := by
  have hinvariant : a.Invariant (fun _ ↦ True)
      (fun failure ↦ failure.rootCause.IsTimeout → failure.IsTimeout) := by
    refine ⟨fun _ _ ↦ trivial, ?_, ?_, ?_⟩
    · intro branch project siblings name cause _ hturn path htimeout
      exact absurd htimeout (isLocal_of_turn hturn).not_isTimeout
    · intro chain htimeout
      exact htimeout
    · intro path elapsed htimeout
      exact htimeout
  exact hinvariant.reports_tree trivial

/-- What a tree records is never that the deadline has passed. -/
theorem not_isTimeout_of_mem_failureList (h : a.tree root = .ok tree) {failed : ModuleFailure}
    (hfailed : failed ∈ tree.failureList) : ¬failed.failure.rootCause.IsTimeout := by
  intro htimeout
  obtain ⟨path, elapsed, hunwrapped⟩ := (reports_timeout a root).2 tree h failed hfailed htimeout
  obtain ⟨subtree, hsubtree, name, hentry⟩ := ProjectTree.mem_failureList_iff.1 hfailed
  obtain ⟨branch, hbranch⟩ := exists_subtree_of_mem_walk h subtree hsubtree
  obtain ⟨cause, hmodule, -⟩ :=
    (isComplete_of_subtree hbranch).modules.failures _ hentry failed.failure rfl
  rw [hunwrapped] at hmodule
  cases hmodule

/-! ## Runs with a deadline -/

/-- A project that has modules fails at once if no time is left to it. -/
theorem tree_of_overdue (hmodules : root.modules ≠ []) {failure : Failure}
    (hoverdue : a.overdue? (.root root.artifactId) 0 = some failure) :
    a.tree root = .error failure := by
  unfold tree
  rw [subtree_eq]
  cases hnames : root.modules with
  | nil => exact absurd hnames hmodules
  | cons name rest =>
    rw [entries_cons, hoverdue]
    rfl

/-- A run with a deadline has the outcome that it has without one, or it fails since some project
found the deadline passed when it turned to one of its modules. This failure is neither wrapped in
that of a module nor recorded in a tree. If there is no time at all, it names the root, unless the
root has no modules. -/
theorem tree_deadline (fs : FileSystem) (loader : Loader) (config : Config) (deadline : Nanoseconds)
    (clock clock' : Clock) (root : Project) :
    let timed : Aggregation := ⟨fs, loader, { config with deadline := some deadline }, clock⟩
    let untimed : Aggregation := ⟨fs, loader, { config with deadline := none }, clock'⟩
    (timed.tree root = untimed.tree root ∨
      ∃ branch path project index, timed.Descends root branch path project ∧
        index < project.modules.length ∧ deadline ≤ clock path index ∧
        timed.tree root = .error (.timeout path (clock path index))) ∧
      (∀ failure, timed.tree root = .error failure →
        failure.rootCause.IsTimeout → failure.IsTimeout) ∧
      (∀ tree, timed.tree root = .ok tree →
        ∀ failed ∈ tree.failures.failures, ¬failed.failure.rootCause.IsTimeout) ∧
      (deadline = 0 →
        ((∃ elapsed, timed.tree root = .error (.timeout (.root root.artifactId) elapsed)) ↔
          root.modules ≠ [])) := by
  intro timed untimed
  have hoverdue : ∀ path index, timed.overdue? path index =
      if deadline ≤ clock path index then some (.timeout path (clock path index)) else none :=
    fun _ _ ↦ rfl
  refine ⟨?_, (reports_timeout timed root).1, ?_, ?_⟩
  · rcases @tree_sameUnless timed untimed rfl rfl rfl rfl rfl root with
      hsame | ⟨failure, ⟨branch, path, project, index, hproject, hindex, hpassed⟩, herror⟩
    · exact .inl hsame
    · rw [hoverdue, Option.ite_none_right_eq_some] at hpassed
      obtain ⟨hle, hfailure⟩ := hpassed
      obtain rfl := Option.some.inj hfailure
      exact .inr ⟨branch, path, project, index, hproject, hindex, hle, herror⟩
  · intro tree htree failed hfailed
    exact not_isTimeout_of_mem_failureList htree hfailed
  · rintro rfl
    constructor
    · rintro ⟨elapsed, herror⟩ hmodules
      unfold tree at herror
      rw [subtree_eq, hmodules, entries_nil] at herror
      cases herror
    · intro hmodules
      exact ⟨_, tree_of_overdue hmodules ((hoverdue _ 0).trans (if_pos (Nat.zero_le _)))⟩

end Aggregation

/-- Without a deadline, a tree does not depend on the clock. -/
theorem Engine.resolveTree_congr {engine : Engine} (hdeadline : engine.config.deadline = none)
    (fs : FileSystem) (clock clock' : Clock) (path : String) :
    engine.resolveTree fs clock path = engine.resolveTree fs clock' path := by
  have haggregate : engine.aggregate fs clock = engine.aggregate fs clock' := by
    funext project
    exact @Aggregation.tree_congr ⟨fs, engine.loader, engine.config, clock⟩
      ⟨fs, engine.loader, engine.config, clock'⟩ rfl rfl rfl rfl hdeadline hdeadline project
  rw [resolveTree, resolveTree, haggregate]

end Reactor

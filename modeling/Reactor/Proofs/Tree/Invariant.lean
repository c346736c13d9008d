import Reactor.Proofs.Tree.Completeness
import Reactor.Proofs.Tree.ErrorModes

/-!
# Invariants of aggregation

What every turn of aggregation preserves holds of all projects of a tree. If the failures of the
turns have a property in common, so have all failures that the tree records, and the failure that
keeps a tree from being built. The induction along aggregation is done here once.
-/

namespace Reactor.Aggregation

variable {a : Aggregation} {I : Project → Prop} {P : Failure → Prop}

/-- A property of projects that carries over to their modules, together with a property that all
failures have as long as it holds. -/
structure Invariant (a : Aggregation) (I : Project → Prop) (P : Failure → Prop) : Prop where
  resolved : ∀ {branch project siblings name location child}, I project →
    a.turn branch project siblings name = .resolved location child → I child
  failed : ∀ {branch project siblings name cause}, I project →
    a.turn branch project siblings name = .failed cause → ∀ path, P (.module path cause)
  cyclic : ∀ chain, P (.cyclic chain)
  timeout : ∀ path elapsed, P (.timeout path elapsed)

/-- Every failure that an outcome tells, be it recorded in a value or the end of the run, has the
given property. -/
def Reports {α : Type} (P : Failure → Prop) (failures : α → List ModuleFailure)
    (outcome : Except Failure α) : Prop :=
  FailsOnly P outcome ∧
    ∀ value, outcome = .ok value → ∀ failed ∈ failures value, P failed.failure

namespace Reports

theorem error {α : Type} {failures : α → List ModuleFailure} {failure : Failure} (h : P failure) :
    Reports P failures (.error failure) :=
  ⟨.error h, by simp⟩

/-- A run reports what its last step reports, if the steps before record nothing. -/
theorem bind {α β : Type} {failures : α → List ModuleFailure} {x : Except Failure β}
    {f : β → Except Failure α} (hx : FailsOnly P x)
    (hf : ∀ b, x = .ok b → Reports P failures (f b)) : Reports P failures (x >>= f) := by
  refine ⟨hx.bind fun b hb ↦ (hf b hb).1, ?_⟩
  intro value hvalue
  obtain ⟨b, hb, hvalue⟩ := bind_eq_ok.1 hvalue
  exact (hf b hb).2 value hvalue

theorem nil : Reports P ProjectTree.failuresOfEntries (.ok []) := by
  refine ⟨.ok [], ?_⟩
  intro outcomes houtcomes
  obtain rfl := Except.ok.inj houtcomes
  rw [ProjectTree.failuresOfEntries_nil]
  simp

theorem ofProject {path : ModulePath} {project : Project}
    {modules : Except Failure (List ModuleEntry)}
    (h : Reports P ProjectTree.failuresOfEntries modules) :
    Reports P ProjectTree.failureList (ProjectTree.ofProject path project <$> modules) := by
  refine ⟨h.1.map _, ?_⟩
  intro tree htree
  obtain ⟨outcomes, houtcomes, rfl⟩ := map_eq_ok.1 htree
  rw [ProjectTree.failureList_ofProject]
  exact h.2 outcomes houtcomes

theorem failed {others : Except Failure (List ModuleEntry)} {name : String} {path : ModulePath}
    {failure : Failure} (hfailure : P failure)
    (hothers : Reports P ProjectTree.failuresOfEntries others) :
    Reports P ProjectTree.failuresOfEntries ((.failed name path failure :: ·) <$> others) := by
  refine ⟨hothers.1.map _, ?_⟩
  intro outcomes houtcomes
  obtain ⟨later, hlater, rfl⟩ := map_eq_ok.1 houtcomes
  rw [ProjectTree.failuresOfEntries_failed]
  intro failed hfailed
  rcases List.mem_cons.1 hfailed with rfl | hfailed
  · exact hfailure
  · exact hothers.2 later hlater failed hfailed

theorem resolved {tree : Except Failure ProjectTree} {others : Except Failure (List ModuleEntry)}
    (htree : Reports P ProjectTree.failureList tree)
    (hothers : Reports P ProjectTree.failuresOfEntries others) :
    Reports P ProjectTree.failuresOfEntries (do
      let tree ← tree
      let others ← others
      .ok (.resolved tree :: others)) := by
  constructor
  · apply htree.1.bind
    intro below _
    apply hothers.1.bind
    intro later _
    exact .ok _
  · intro outcomes houtcomes
    obtain ⟨below, hbelow, houtcomes⟩ := bind_eq_ok.1 houtcomes
    obtain ⟨later, hlater, houtcomes⟩ := bind_eq_ok.1 houtcomes
    obtain rfl := Except.ok.inj houtcomes
    rw [ProjectTree.failuresOfEntries_resolved]
    intro failed hfailed
    rcases List.mem_append.1 hfailed with hfailed | hfailed
    · exact htree.2 below hbelow failed hfailed
    · exact hothers.2 later hlater failed hfailed

end Reports

namespace Invariant

variable (h : a.Invariant I P)

include h

theorem reports_entries (branch : List Visit) (path : ModulePath) (project : Project) (index : Nat)
    (siblings names : List String) (hproject : I project) :
    Reports P ProjectTree.failuresOfEntries
      (a.entries branch path project index siblings names) := by
  induction branch, path, project, index, siblings, names using entries_induction a with
  | nil branch path project index siblings =>
    rw [entries_nil]
    exact .nil
  | cons branch path project index siblings name rest hrest hchild =>
    rw [entries_cons]
    cases hoverdue : a.overdue? path index with
    | some failure =>
      obtain ⟨elapsed, rfl⟩ := overdue?_eq_some hoverdue
      exact .error (h.timeout path elapsed)
    | none =>
      cases hturn : a.turn branch project siblings name with
      | cyclic chain => exact .error (h.cyclic chain)
      | failed cause =>
        have hcause := h.failed hproject hturn (path.child name)
        cases hmode : a.config.errorMode with
        | failFast =>
          simp only [record_failFast a _ _ _ _ _ hmode]
          exact .error hcause
        | collectAll =>
          simp only [record_collectAll a _ _ _ _ _ hmode]
          exact .failed hcause (hrest siblings hproject)
      | resolved location child =>
        refine .resolved ?_ (hrest _ hproject)
        rw [subtree_eq]
        exact (hchild location child hturn (h.resolved hproject hturn)).ofProject

theorem reports_tree {project : Project} (hproject : I project) :
    Reports P ProjectTree.failureList (a.tree project) := by
  unfold tree
  rw [subtree_eq]
  exact (h.reports_entries _ _ project 0 [] project.modules hproject).ofProject

/-- The invariant holds of all projects of a tree if it holds of the root. -/
theorem of_mem_walk {project : Project} {tree : ProjectTree} (hproject : I project)
    (htree : a.tree project = .ok tree) : ∀ subtree ∈ tree.walk, I subtree.project := by
  have hwalk : ∀ subtree ∈ tree.walk, I subtree.project ∧
      ∃ branch, a.subtree branch subtree.path subtree.project = .ok subtree := by
    apply ProjectTree.forall_mem_walk
    · intro parent hparent child hchild
      obtain ⟨hinvariant, above, habove⟩ := hparent
      obtain ⟨name, siblings, location, hturn, hsubtree⟩ :=
        exists_turn_of_mem_children habove hchild
      obtain ⟨hpath, -⟩ := parts_of_subtree hsubtree
      exact ⟨h.resolved hinvariant hturn, _, hpath ▸ hsubtree⟩
    · have hroot : a.subtree [⟨a.fs.canonical project.location, project.artifactId⟩]
          (.root project.artifactId) project = .ok tree := htree
      obtain ⟨hpath, hself⟩ := parts_of_subtree hroot
      rw [← hpath] at hroot
      exact ⟨hself ▸ hproject, _, hself ▸ hroot⟩
  intro subtree hsubtree
  exact (hwalk subtree hsubtree).1

end Invariant

end Reactor.Aggregation

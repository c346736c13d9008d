import Reactor.Proofs.Tree.Completeness
import Reactor.Proofs.Tree.ErrorModes

/-!
# The subtrees of a tree

A walk visits a tree before the subtrees of its children, child by child. The failures of a tree are
the failed entries of the subtrees that a walk visits.
-/

namespace Reactor.ProjectTree

variable {tree subtree : ProjectTree} {failed : ModuleFailure}

theorem walkFrom_append (trees stack : List ProjectTree) :
    walkFrom (trees ++ stack) = walkFrom trees ++ walkFrom stack := by
  fun_induction walkFrom trees with
  | case1 => rfl
  | case2 first rest ih =>
    rw [List.cons_append, walkFrom, ← List.append_assoc, ih, List.cons_append]

theorem walkFrom_eq_flatMap (trees : List ProjectTree) : walkFrom trees = trees.flatMap walk := by
  induction trees with
  | nil => rw [walkFrom, List.flatMap_nil]
  | cons first rest ih =>
    rw [← List.singleton_append, walkFrom_append, ih, List.flatMap_append, List.flatMap_singleton,
      walk]

theorem walk_eq (tree : ProjectTree) : tree.walk = tree :: tree.children.flatMap walk := by
  rw [walk, walkFrom, List.append_nil, walkFrom_eq_flatMap]

theorem mem_walk_iff :
    subtree ∈ tree.walk ↔ subtree = tree ∨ ∃ child ∈ tree.children, subtree ∈ child.walk := by
  rw [walk_eq, List.mem_cons, List.mem_flatMap]

theorem self_mem_walk (tree : ProjectTree) : tree ∈ tree.walk :=
  mem_walk_iff.2 (.inl rfl)

/-- The subtrees of a subtree are subtrees. -/
theorem mem_walk_trans {inner : ProjectTree} (h : subtree ∈ tree.walk)
    (hinner : inner ∈ subtree.walk) : inner ∈ tree.walk := by
  refine forall_mem_walk (P := fun subtree ↦ ∀ inner ∈ subtree.walk, inner ∈ tree.walk) ?_ ?_
    subtree h inner hinner
  · intro parent hparent child hchild inner hinner
    exact hparent inner (mem_walk_iff.2 (.inr ⟨child, hchild, hinner⟩))
  · intro inner hinner
    exact hinner

/-! ## Failures -/

theorem mem_failuresOfEntries_iff {entries : List ModuleEntry} :
    failed ∈ failuresOfEntries entries ↔
      (∃ name, .failed name failed.path failed.failure ∈ entries) ∨
        ∃ child ∈ entries.filterMap ModuleEntry.tree?, failed ∈ child.failureList := by
  induction entries with
  | nil => simp [failuresOfEntries_nil]
  | cons entry rest ih =>
    cases entry with
    | failed name path failure =>
      have hhead : failed = ⟨path, failure⟩ ↔
          ∃ other, ModuleEntry.failed other failed.path failed.failure =
            .failed name path failure := by
        cases failed
        simp
      simp only [failuresOfEntries_failed, List.mem_cons, ih, hhead, exists_or, or_assoc]
      rfl
    | resolved child =>
      have hchildren : (ModuleEntry.resolved child :: rest).filterMap ModuleEntry.tree? =
          child :: rest.filterMap ModuleEntry.tree? := rfl
      rw [failuresOfEntries_resolved, List.mem_append, ih, hchildren]
      simp only [List.mem_cons, reduceCtorEq, false_or, exists_eq_or_imp]
      exact or_left_comm

theorem mem_failureList_iff_children :
    failed ∈ tree.failureList ↔
      (∃ name, .failed name failed.path failed.failure ∈ tree.modules) ∨
        ∃ child ∈ tree.children, failed ∈ child.failureList := by
  cases tree
  rw [failureList]
  exact mem_failuresOfEntries_iff

theorem exists_mem_failureList_iff (stack : List ProjectTree) :
    (∃ tree ∈ stack, failed ∈ tree.failureList) ↔
      ∃ subtree ∈ walkFrom stack,
        ∃ name, .failed name failed.path failed.failure ∈ subtree.modules := by
  fun_induction walkFrom stack with
  | case1 => simp
  | case2 first stack ih =>
    simp only [List.mem_append, or_and_right, exists_or] at ih
    simp only [List.mem_cons, exists_eq_or_imp, ← ih]
    rw [mem_failureList_iff_children, or_assoc]

/-- The failures of a tree are the failed entries of its subtrees. -/
theorem mem_failureList_iff :
    failed ∈ tree.failureList ↔
      ∃ subtree ∈ tree.walk, ∃ name, .failed name failed.path failed.failure ∈ subtree.modules := by
  rw [walk, ← exists_mem_failureList_iff]
  simp

end Reactor.ProjectTree

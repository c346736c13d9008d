import Mathlib.Data.List.Nodup
import Reactor.Proofs.Tree.Standalone

/-!
# Complete trees

An aggregated tree accounts for every module that its projects list. Each module has exactly one
entry, in declared order and at the position of the module, whichever way the turn to it ended. A
failed entry tells the failure of its own module and nothing else, and the resolved entries of one
project have different artifact ids.
-/

namespace Reactor

namespace ModuleEntry

def path : ModuleEntry → ModulePath
  | resolved tree => tree.path
  | failed _ path _ => path

def failure? : ModuleEntry → Option Failure
  | resolved _ => none
  | failed _ _ failure => some failure

/-- Whether a failure is that of the module at a path, and not that of another module which has been
wrapped once more. -/
def FailsAt (path : ModulePath) (failure : Failure) : Prop :=
  ∃ cause, failure = .module path cause ∧ ∀ inner source, cause ≠ .module inner source

/-- Whether entries account for the modules that a project at a path lists under the given names. -/
structure Account (path : ModulePath) (names : List String) (entries : List ModuleEntry) :
    Prop where
  names : entries.map name = names
  paths : ∀ entry ∈ entries, entry.path = path.child entry.name
  artifactIds : ((entries.filterMap tree?).map (·.project.artifactId)).Nodup
  failures : ∀ entry ∈ entries, ∀ failure ∈ entry.failure?, FailsAt entry.path failure

theorem name_resolved {tree : ProjectTree} {path : ModulePath} {name : String}
    (h : tree.path = path.child name) : (resolved tree).name = name := by
  simp [ModuleEntry.name, h, ModulePath.last?, ModulePath.child]

namespace Account

variable {path : ModulePath} {names : List String} {entries : List ModuleEntry}

theorem nil (path : ModulePath) : Account path [] [] where
  names := rfl
  paths := by simp
  artifactIds := List.nodup_nil
  failures := by simp

/-- A failed module adds its name, and takes no artifact id. -/
theorem failed (h : Account path names entries) (name : String) {cause : Failure}
    (hcause : cause.IsLocal) :
    Account path (name :: names)
      (.failed name (path.child name) (.module (path.child name) cause) :: entries) where
  names := congrArg (name :: ·) h.names
  paths := by
    intro entry hentry
    rcases List.mem_cons.1 hentry with rfl | hentry
    · rfl
    · exact h.paths entry hentry
  artifactIds := h.artifactIds
  failures := by
    intro entry hentry failure hfailure
    rcases List.mem_cons.1 hentry with rfl | hentry
    · obtain rfl := Option.some.inj hfailure
      refine ⟨cause, rfl, fun inner source hmodule ↦ ?_⟩
      rw [hmodule] at hcause
      cases hcause
    · exact h.failures entry hentry failure hfailure

/-- A resolved module adds its name and an artifact id that no later sibling has. -/
theorem resolved (h : Account path names entries) {name : String} {tree : ProjectTree}
    (hpath : tree.path = path.child name)
    (hnew : tree.project.artifactId ∉ (entries.filterMap tree?).map (·.project.artifactId)) :
    Account path (name :: names) (.resolved tree :: entries) where
  names := by rw [List.map_cons, name_resolved hpath, h.names]
  paths := by
    intro entry hentry
    rcases List.mem_cons.1 hentry with rfl | hentry
    · rw [name_resolved hpath]
      exact hpath
    · exact h.paths entry hentry
  artifactIds := List.nodup_cons.2 ⟨hnew, h.artifactIds⟩
  failures := by
    intro entry hentry failure hfailure
    rcases List.mem_cons.1 hentry with rfl | hentry
    · cases hfailure
    · exact h.failures entry hentry failure hfailure

end Account

end ModuleEntry

namespace ProjectTree

/-- A tree that accounts for all modules of its project, and that is labelled with the fingerprint
of its project. -/
structure IsComplete (tree : ProjectTree) : Prop where
  fingerprint : tree.fingerprint = tree.project.fingerprint
  modules : ModuleEntry.Account tree.path tree.project.modules tree.modules

variable {P : ProjectTree → Prop} (hstep : ∀ tree, P tree → ∀ child ∈ tree.children, P child)

include hstep

theorem forall_mem_walkFrom (stack : List ProjectTree) (hstack : ∀ tree ∈ stack, P tree) :
    ∀ tree ∈ walkFrom stack, P tree := by
  fun_induction walkFrom stack with
  | case1 => simp
  | case2 first stack ih =>
    have hfirst : P first := hstack first List.mem_cons_self
    have hrest : ∀ tree ∈ first.children ++ stack, P tree := by
      intro tree htree
      rcases List.mem_append.1 htree with htree | htree
      · exact hstep first hfirst tree htree
      · exact hstack tree (List.mem_cons_of_mem _ htree)
    intro tree htree
    rcases List.mem_cons.1 htree with rfl | htree
    · exact hfirst
    · exact ih hrest tree htree

/-- What carries over from a tree to the trees of its modules holds of every subtree. -/
theorem forall_mem_walk {tree : ProjectTree} (h : P tree) : ∀ subtree ∈ tree.walk, P subtree := by
  apply forall_mem_walkFrom hstep
  intro other hother
  rw [List.mem_singleton.1 hother]
  exact h

end ProjectTree

namespace Aggregation

variable {a : Aggregation} {branch : List Visit} {path : ModulePath} {project : Project}
  {index : Nat} {siblings names : List String} {outcomes : List ModuleEntry} {tree : ProjectTree}

theorem notMem_of_turn {name location : String} {child : Project}
    (h : a.turn branch project siblings name = .resolved location child) :
    child.artifactId ∉ siblings := by
  obtain ⟨file, -, -, -, hchild⟩ := turn_eq_resolved h
  exact (moduleProject_eq_ok_iff.1 hchild).2

/-- The outcomes of modules account for them. The induction carries that no artifact id of an
earlier sibling is taken once more. -/
theorem account_of_entries (h : a.entries branch path project index siblings names = .ok outcomes) :
    ModuleEntry.Account path names outcomes ∧
      ∀ tree ∈ outcomes.filterMap ModuleEntry.tree?, tree.project.artifactId ∉ siblings := by
  induction names generalizing index siblings outcomes with
  | nil =>
    rw [entries_nil] at h
    obtain rfl := Except.ok.inj h
    exact ⟨.nil path, by simp⟩
  | cons name rest ih =>
    rcases entries_cons_eq_ok h with ⟨cause, others, hturn, -, hothers, rfl⟩ |
      ⟨location, tree, others, hturn, htree, hothers, rfl⟩
    · obtain ⟨haccount, hfree⟩ := ih hothers
      exact ⟨haccount.failed name (isLocal_of_turn hturn), hfree⟩
    · obtain ⟨haccount, hfree⟩ := ih hothers
      obtain ⟨hpath, -⟩ := parts_of_subtree htree
      have hnew : tree.project.artifactId ∉
          (others.filterMap ModuleEntry.tree?).map (·.project.artifactId) := by
        intro htaken
        obtain ⟨other, hother, hsame⟩ := List.mem_map.1 htaken
        exact hfree other hother (hsame ▸ List.mem_cons_self)
      refine ⟨haccount.resolved hpath hnew, fun other hother ↦ ?_⟩
      rcases List.mem_cons.1 hother with rfl | hother
      · exact notMem_of_turn hturn
      · exact fun htaken ↦ hfree other hother (List.mem_cons_of_mem _ htaken)

theorem isComplete_of_subtree (h : a.subtree branch path project = .ok tree) : tree.IsComplete := by
  rw [subtree_eq] at h
  obtain ⟨modules, hmodules, rfl⟩ := map_eq_ok.1 h
  exact ⟨rfl, (account_of_entries hmodules).1⟩

/-- Aggregation that stops at the first failing module records no failure. -/
theorem failure?_of_failFast (hmode : a.config.errorMode = .failFast)
    (h : a.entries branch path project index siblings names = .ok outcomes) :
    ∀ entry ∈ outcomes, entry.failure? = none := by
  induction names generalizing index siblings outcomes with
  | nil =>
    rw [entries_nil] at h
    obtain rfl := Except.ok.inj h
    simp
  | cons name rest ih =>
    rcases entries_cons_eq_ok h with ⟨cause, others, -, hcollect, -, -⟩ |
      ⟨location, tree, others, -, -, hothers, rfl⟩
    · rw [hmode] at hcollect
      cases hcollect
    · intro entry hentry
      rcases List.mem_cons.1 hentry with rfl | hentry
      · rfl
      · exact ih hothers entry hentry

/-- Every subtree of an aggregated tree was aggregated, too. -/
theorem exists_subtree_of_mem_walk (h : a.subtree branch path project = .ok tree) :
    ∀ subtree ∈ tree.walk,
      ∃ branch, a.subtree branch subtree.path subtree.project = .ok subtree := by
  apply ProjectTree.forall_mem_walk
  · intro parent hparent child hchild
    obtain ⟨above, habove⟩ := hparent
    obtain ⟨name, siblings, location, -, hsubtree⟩ := exists_turn_of_mem_children habove hchild
    obtain ⟨hpath, -⟩ := parts_of_subtree hsubtree
    exact ⟨_, hpath ▸ hsubtree⟩
  · obtain ⟨rfl, rfl⟩ := parts_of_subtree h
    exact ⟨branch, h⟩

/-- An aggregated tree starts at the position of its root, and each of its subtrees accounts for all
modules of its project. If aggregation stops at the first failing module, all of them are
resolved. -/
theorem isComplete_of_mem_walk {root : Project} (h : a.tree root = .ok tree) :
    tree.path = .root root.artifactId ∧ tree.project = root ∧
      ∀ subtree ∈ tree.walk, subtree.IsComplete ∧ (a.config.errorMode = .failFast →
        ∀ entry ∈ subtree.modules, entry.failure? = none) := by
  obtain ⟨hpath, hproject⟩ := parts_of_subtree h
  refine ⟨hpath, hproject, fun subtree hsubtree ↦ ?_⟩
  obtain ⟨branch, haggregated⟩ := exists_subtree_of_mem_walk h subtree hsubtree
  refine ⟨isComplete_of_subtree haggregated, fun hmode ↦ ?_⟩
  rw [subtree_eq] at haggregated
  obtain ⟨modules, hmodules, htree⟩ := map_eq_ok.1 haggregated
  rw [← htree]
  exact failure?_of_failFast hmode hmodules

/-! ### A project of which one module is missing -/

open Engine (twoFiles lowerBelow upperListing)

/-- A project that lists a module without a file before one with a file. -/
def partlyPresent : Project :=
  upperListing ["gone", "b.json"]

def goneEntry : ModuleEntry :=
  .failed "gone" ⟨["a", "gone"]⟩ (.module ⟨["a", "gone"]⟩ (.notFound "/gone"))

def partlyPresentTree : ProjectTree :=
  .ofProject (.root "a") partlyPresent [goneEntry, .resolved
    (.ofProject ⟨["a", "b.json"]⟩ (lowerBelow ["gone", "b.json"]) [])]

theorem resolve?_gone : twoFiles.resolve? "/gone" = none := by
  have hsplit : Text.split '/' "/gone" = ["", "gone"] := by decide +kernel
  have hwalk : twoFiles.walk false FileSystem.maxLinks [] ["", "gone"] = .error .missing := by
    rw [FileSystem.walk, FileSystem.walk]
    decide +kernel
  have hstart : twoFiles.start "/gone" = [] := by decide +kernel
  unfold FileSystem.resolve? FileSystem.resolve
  rw [hsplit, hstart, hwalk]
  decide +kernel

theorem turn_gone (branch : List Visit) :
    besideTwoFiles.turn branch partlyPresent [] "gone" = .failed (.notFound "/gone") := by
  have hdirectory : moduleDirectory partlyPresent "gone" = "/gone" := rfl
  have hmissing : besideTwoFiles.fs.resolve? (moduleDirectory partlyPresent "gone") = none := by
    rw [hdirectory]
    exact resolve?_gone
  rw [turn_of_missing hmissing, hdirectory]

theorem tree_partlyPresent : besideTwoFiles.tree partlyPresent = .ok partlyPresentTree := by
  have hbranch : besideTwoFiles.fs.canonical partlyPresent.location = "/a.json" :=
    Engine.canonical_twoFiles.1
  have hlower : besideTwoFiles.turn [⟨"/a.json", "a"⟩] partlyPresent [] "b.json" =
      .resolved "/b.json" (lowerBelow ["gone", "b.json"]) := Engine.turn_twoFiles _ _
  rw [tree, hbranch, subtree_eq, show partlyPresent.artifactId = "a" from rfl,
    show partlyPresent.modules = ["gone", "b.json"] from rfl, entries_cons, turn_gone]
  simp only [record_collectAll besideTwoFiles _ _ _ _ _ rfl, entries_cons, hlower, subtree_eq,
    overdue?_eq_none (show besideTwoFiles.config.deadline = none from rfl)]
  rw [show (lowerBelow ["gone", "b.json"]).modules = [] from rfl, entries_nil, entries_nil]
  rfl

theorem partlyPresentTree_isComplete :
    besideTwoFiles.tree partlyPresent = .ok partlyPresentTree ∧
      goneEntry ∈ partlyPresentTree.modules ∧ partlyPresentTree.IsComplete := by
  obtain ⟨-, -, hwalk⟩ := isComplete_of_mem_walk tree_partlyPresent
  have hroot : partlyPresentTree ∈ partlyPresentTree.walk := by
    rw [ProjectTree.walk, ProjectTree.walkFrom]
    exact List.mem_cons_self
  exact ⟨tree_partlyPresent, List.mem_cons_self, (hwalk partlyPresentTree hroot).1⟩

end Aggregation

end Reactor

import Reactor.Proofs.Tree.Turn

/-!
# Failing fast and collecting failures

Aggregation that stops at the first failing module and aggregation that records every failure see
the same modules in the same order. What the first one returns is therefore determined by what the
second one records: the same tree if nothing failed, and otherwise the failure that comes first in
depth-first order. Only a module cycle, which ends both, may be preceded by a failure that the
collecting run passes over.
-/

namespace Reactor

namespace ProjectTree

theorem failureList_ofProject (path : ModulePath) (project : Project)
    (entries : List ModuleEntry) :
    (ofProject path project entries).failureList = failuresOfEntries entries := by
  rw [ofProject, failureList]

theorem failuresOfEntries_nil : failuresOfEntries [] = [] := by
  rw [failuresOfEntries]

theorem failuresOfEntries_resolved (tree : ProjectTree) (others : List ModuleEntry) :
    failuresOfEntries (.resolved tree :: others) =
      tree.failureList ++ failuresOfEntries others := by
  rw [failuresOfEntries]

theorem failuresOfEntries_failed (name : String) (path : ModulePath) (failure : Failure)
    (others : List ModuleEntry) :
    failuresOfEntries (.failed name path failure :: others) =
      ⟨path, failure⟩ :: failuresOfEntries others := by
  rw [failuresOfEntries]

theorem failuresOfEntries_resolved_of_clean {tree : ProjectTree} (hclean : tree.failureList = [])
    (others : List ModuleEntry) :
    failuresOfEntries (.resolved tree :: others) = failuresOfEntries others := by
  rw [failuresOfEntries_resolved, hclean, List.nil_append]

end ProjectTree

namespace Aggregation

/-- How an outcome that was reached while recording failures relates to one that stops at the first
of them. Recorded failures are read off a value by `failures`. -/
inductive FirstFailure {α : Type} (failures : α → List ModuleFailure) :
    Except Failure α → Except Failure α → Prop
  /-- Nothing failed. -/
  | clean {value : α} (h : failures value = []) : FirstFailure failures (.ok value) (.ok value)
  /-- The first recorded failure is the one that ends the other run. -/
  | recorded {value : α} {path modulePath : ModulePath} {cause : Failure}
      {rest : List ModuleFailure}
      (h : failures value = ⟨path, .module modulePath cause⟩ :: rest) :
      FirstFailure failures (.ok value) (.error (.module modulePath cause))
  /-- Both runs end in the same way, and no module failed before. -/
  | ended (failure : Failure) : FirstFailure failures (.error failure) (.error failure)
  /-- A module failed before the collecting run ended. -/
  | passedOver (failure : Failure) (path : ModulePath) (cause : Failure) :
      FirstFailure failures (.error failure) (.error (.module path cause))

namespace FirstFailure

/-- The tree of a project relates two outcomes in the way the entries of its modules do. -/
theorem ofProject {path : ModulePath} {project : Project}
    {collected first : Except Failure (List ModuleEntry)}
    (h : FirstFailure ProjectTree.failuresOfEntries collected first) :
    FirstFailure ProjectTree.failureList (ProjectTree.ofProject path project <$> collected)
      (ProjectTree.ofProject path project <$> first) := by
  cases h with
  | clean h => exact .clean ((ProjectTree.failureList_ofProject path project _).trans h)
  | recorded h => exact .recorded ((ProjectTree.failureList_ofProject path project _).trans h)
  | ended failure => exact .ended failure
  | passedOver failure path cause => exact .passedOver failure path cause

/-- A module that fails is the first failure, whatever comes of its later siblings. -/
theorem failed (name : String) (path : ModulePath) (cause : Failure)
    (collected : Except Failure (List ModuleEntry)) :
    FirstFailure ProjectTree.failuresOfEntries
      ((.failed name path (.module path cause) :: ·) <$> collected)
      (.error (.module path cause)) := by
  cases collected with
  | error failure => exact .passedOver failure path cause
  | ok others => exact .recorded (ProjectTree.failuresOfEntries_failed name path _ others)

/-- The failures below a resolved module come before those of its later siblings. -/
theorem resolved {tree tree' : Except Failure ProjectTree}
    {others others' : Except Failure (List ModuleEntry)}
    (htree : FirstFailure ProjectTree.failureList tree tree')
    (hothers : FirstFailure ProjectTree.failuresOfEntries others others') :
    FirstFailure ProjectTree.failuresOfEntries
      (do
        let tree ← tree
        let others ← others
        .ok (.resolved tree :: others))
      (do
        let tree ← tree'
        let others ← others'
        .ok (.resolved tree :: others)) := by
  cases htree with
  | ended failure => exact .ended failure
  | passedOver failure path cause => exact .passedOver failure path cause
  | @recorded tree _ _ _ _ hfirst =>
    cases others with
    | error failure => exact .passedOver failure _ _
    | ok others =>
      have hfailures := ProjectTree.failuresOfEntries_resolved tree others
      rw [hfirst, List.cons_append] at hfailures
      exact .recorded hfailures
  | @clean tree hclean =>
    cases hothers with
    | ended failure => exact .ended failure
    | passedOver failure path cause => exact .passedOver failure path cause
    | @clean others h =>
      have hfailures := ProjectTree.failuresOfEntries_resolved_of_clean hclean others
      exact .clean (hfailures.trans h)
    | @recorded others _ _ _ _ h =>
      have hfailures := ProjectTree.failuresOfEntries_resolved_of_clean hclean others
      exact .recorded (hfailures.trans h)

/-! ### What the recorded failures say about the run that stops at the first one -/

variable {α : Type} {failures : α → List ModuleFailure} {collected first : Except Failure α}
  {value : α}

theorem first_of_clean (h : FirstFailure failures collected first)
    (hcollected : collected = .ok value) (hclean : failures value = []) : first = .ok value := by
  cases h with
  | clean _ => exact hcollected
  | recorded hrecorded =>
    obtain rfl := Except.ok.inj hcollected
    rw [hrecorded] at hclean
    cases hclean
  | ended failure => cases hcollected
  | passedOver failure path cause => cases hcollected

theorem first_of_recorded (h : FirstFailure failures collected first)
    (hcollected : collected = .ok value) {failure : ModuleFailure} {rest : List ModuleFailure}
    (hfailures : failures value = failure :: rest) : first = .error failure.failure := by
  cases h with
  | clean hclean =>
    obtain rfl := Except.ok.inj hcollected
    rw [hclean] at hfailures
    cases hfailures
  | recorded hrecorded =>
    obtain rfl := Except.ok.inj hcollected
    rw [hrecorded] at hfailures
    obtain ⟨rfl, -⟩ := List.cons.inj hfailures
    rfl
  | ended failure => cases hcollected
  | passedOver failure path cause => cases hcollected

theorem first_of_error (h : FirstFailure failures collected first) {failure : Failure}
    (hcollected : collected = .error failure) :
    first = .error failure ∨ ∃ path cause, first = .error (.module path cause) := by
  cases h with
  | clean _ => cases hcollected
  | recorded _ => cases hcollected
  | ended _ => exact .inl hcollected
  | passedOver _ path cause => exact .inr ⟨path, cause, rfl⟩

theorem collected_of_ok (h : FirstFailure failures collected first) (hfirst : first = .ok value) :
    collected = .ok value := by
  cases h with
  | clean _ => exact hfirst
  | recorded _ => cases hfirst
  | ended _ => cases hfirst
  | passedOver _ _ _ => cases hfirst

end FirstFailure

section Runs

variable {collecting failing : Aggregation} (hfs : collecting.fs = failing.fs)
  (hloader : collecting.loader = failing.loader)
  (hpolicy : collecting.config.missingProperty = failing.config.missingProperty)
  (hcollecting : collecting.config.errorMode = .collectAll)
  (hfailing : failing.config.errorMode = .failFast)
  (hdeadline : collecting.config.deadline = none) (hdeadline' : failing.config.deadline = none)

include hfs hloader hpolicy hcollecting hfailing hdeadline hdeadline'

theorem entries_firstFailure (branch : List Visit) (path : ModulePath) (project : Project)
    (index : Nat) (siblings names : List String) :
    FirstFailure ProjectTree.failuresOfEntries
      (collecting.entries branch path project index siblings names)
      (failing.entries branch path project index siblings names) := by
  induction branch, path, project, index, siblings, names using entries_induction collecting with
  | nil branch path project index siblings =>
    rw [entries_nil, entries_nil]
    exact .clean ProjectTree.failuresOfEntries_nil
  | cons branch path project index siblings name rest hrest hchild =>
    rw [entries_cons, entries_cons, overdue?_eq_none hdeadline, overdue?_eq_none hdeadline',
      ← turn_congr hfs hloader hpolicy]
    cases hturn : collecting.turn branch project siblings name with
    | failed cause =>
      simp only [record_collectAll collecting _ _ _ _ _ hcollecting,
        record_failFast failing _ _ _ _ _ hfailing]
      exact .failed name (path.child name) cause _
    | cyclic chain => exact .ended (.cyclic chain)
    | resolved location child =>
      refine .resolved ?_ (hrest _)
      rw [subtree_eq, subtree_eq]
      exact (hchild location child hturn).ofProject

/-- The two runs on one project. -/
theorem tree_firstFailure (project : Project) :
    FirstFailure ProjectTree.failureList (collecting.tree project) (failing.tree project) := by
  unfold tree
  rw [subtree_eq, subtree_eq, hfs]
  exact (entries_firstFailure hfs hloader hpolicy hcollecting hfailing hdeadline hdeadline'
    _ _ _ _ _ _).ofProject

end Runs

/-- Failing fast returns the collected tree if it holds no failure, and otherwise the first failure
that the tree records. If collecting fails, so does failing fast, with the same failure or with that
of a module. -/
theorem failFast_tree_of_collectAll_tree (fs : FileSystem) (loader : Loader) (config : Config)
    (clock clock' : Clock) (project : Project) (hdeadline : config.deadline = none) :
    let collected := tree ⟨fs, loader, { config with errorMode := .collectAll }, clock⟩ project
    let first := tree ⟨fs, loader, { config with errorMode := .failFast }, clock'⟩ project
    (∀ tree, collected = .ok tree → tree.failures.failures = [] → first = .ok tree) ∧
      (∀ tree failure rest, collected = .ok tree → tree.failures.failures = failure :: rest →
        first = .error failure.failure) ∧
      (∀ failure, collected = .error failure →
        first = .error failure ∨ ∃ path cause, first = .error (.module path cause)) ∧
      (∀ tree, first = .ok tree → collected = .ok tree) := by
  intro collected first
  have h : FirstFailure ProjectTree.failureList collected first :=
    @tree_firstFailure ⟨fs, loader, { config with errorMode := .collectAll }, clock⟩
      ⟨fs, loader, { config with errorMode := .failFast }, clock'⟩ rfl rfl rfl rfl rfl hdeadline
      hdeadline project
  refine ⟨?_, ?_, ?_, ?_⟩
  · intro tree hcollected hclean
    exact h.first_of_clean hcollected hclean
  · intro tree failure rest hcollected hfailures
    exact h.first_of_recorded hcollected hfailures
  · intro failure hcollected
    exact h.first_of_error hcollected
  · intro tree hfirst
    exact h.collected_of_ok hfirst

def nowhere : Aggregation :=
  ⟨⟨[], []⟩, ⟨[], ∅⟩, .ofMode .collectAll, fun _ _ ↦ 0⟩

theorem turn_nowhere (branch : List Visit) (project : Project) (siblings : List String)
    (name : String) :
    nowhere.turn branch project siblings name =
      .failed (.notFound (moduleDirectory project name)) := by
  have hfile (path : String) : nowhere.fs.isFile path = false := by
    unfold FileSystem.isFile FileSystem.content? FileSystem.node?
    cases nowhere.fs.resolve? path with
    | none => rfl
    | some place => by_cases hroot : place = [] <;> simp [hroot, nowhere]
  have hlocate (path : String) : nowhere.loader.locate? nowhere.fs path = none := by
    simp [Loader.locate?, Format.locate?, hfile]
  unfold turn
  rw [hlocate]

theorem entries_nowhere (branch : List Visit) (path : ModulePath) (project : Project)
    (index : Nat) (siblings names : List String) :
    nowhere.entries branch path project index siblings names =
      .ok (names.map fun name ↦ .failed name (path.child name)
        (.module (path.child name) (.notFound (moduleDirectory project name)))) := by
  induction names generalizing index with
  | nil => rw [entries_nil, List.map_nil]
  | cons name rest ih =>
    rw [entries_cons, overdue?_eq_none rfl, turn_nowhere]
    simp only [record_collectAll nowhere _ _ _ _ _ rfl, ih]
    rfl

def forsaken : Project :=
  { (default : Project) with artifactId := "root", modules := ["gone", "lost"] }

theorem failFast_tree_forsaken :
    tree { nowhere with config := .ofMode .failFast } forsaken =
      .error (.module ⟨["root", "gone"]⟩ (.notFound "./gone")) := by
  obtain ⟨-, hfirst, -, -⟩ := failFast_tree_of_collectAll_tree nowhere.fs nowhere.loader
    nowhere.config nowhere.clock nowhere.clock forsaken rfl
  have hcollected : nowhere.tree forsaken = .ok (.ofProject (.root "root") forsaken
      (forsaken.modules.map fun name ↦ .failed name ⟨["root", name]⟩
        (.module ⟨["root", name]⟩ (.notFound (moduleDirectory forsaken name))))) := by
    rw [tree, subtree_eq, entries_nowhere]
    rfl
  have hfailures := ProjectTree.failuresOfEntries_failed "gone" ⟨["root", "gone"]⟩
    (.module ⟨["root", "gone"]⟩ (.notFound (moduleDirectory forsaken "gone")))
    [.failed "lost" ⟨["root", "lost"]⟩
      (.module ⟨["root", "lost"]⟩ (.notFound (moduleDirectory forsaken "lost")))]
  have hreported :=
    (ProjectTree.failureList_ofProject (.root "root") forsaken _).trans hfailures
  have hgone : moduleDirectory forsaken "gone" = "./gone" := by decide +kernel
  rw [← hgone]
  exact hfirst _ _ _ hcollected hreported

end Aggregation

end Reactor

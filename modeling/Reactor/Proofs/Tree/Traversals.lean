import Reactor.Proofs.CommandLine.Lines
import Reactor.Proofs.Tree.DepthFirst
import Reactor.Proofs.Tree.Walk

/-!
# Traversals

A tree is traversed in three ways: a walk visits its resolved projects with a stack of the trees
that are left, its failures are collected entry by entry, and a report is printed on all of it. All
three meet what stands in the tree in one order, the depth-first order of places, and each of them
once. So they agree on how many projects were resolved and how many modules failed.
-/

namespace Reactor

namespace Enumerates

variable {α β : Type} {stands : List Nat → α → Prop} {items : List α}

/-- Leaving some items out keeps the order of the others. -/
theorem filterMap (h : Enumerates stands items) (f : α → Option β) :
    Enumerates (fun place b ↦ ∃ a, stands place a ∧ f a = some b) (items.filterMap f) := by
  obtain ⟨placed, rfl, hincreasing, hall⟩ := h
  refine ⟨placed.filterMap fun entry ↦ (f entry.2).map (entry.1, ·), ?_, ?_, ?_⟩
  · rw [List.map_filterMap, List.filterMap_map]
    congr 1
    funext entry
    simp
  · apply hincreasing.filterMap
    rintro ⟨place, a⟩ ⟨place', a'⟩ hlt b hb b' hb'
    obtain ⟨-, -, rfl⟩ := Option.map_eq_some_iff.1 hb
    obtain ⟨-, -, rfl⟩ := Option.map_eq_some_iff.1 hb'
    exact hlt
  · intro place b
    simp only [hall, List.mem_filterMap, Option.map_eq_some_iff, Prod.exists, Prod.mk.injEq]
    constructor
    · rintro ⟨a, ha, hb⟩
      exact ⟨place, a, ha, b, hb, rfl, rfl⟩
    · rintro ⟨_, a, ha, _, hb, rfl, rfl⟩
      exact ⟨a, ha, hb⟩

end Enumerates

namespace ProjectTree

/-! ## What stands in a tree -/

/-- What stands at a place of a tree: a resolved project with all that is below it, or a module that
failed, with the level at which it is reported and the name under which it is listed. -/
inductive Encounter where
  | resolved (tree : ProjectTree)
  | failed (depth : Nat) (name : String) (entry : ModuleFailure)

namespace Encounter

def tree? : Encounter → Option ProjectTree
  | resolved tree => some tree
  | failed _ _ _ => none

def failure? : Encounter → Option ModuleFailure
  | resolved _ => none
  | failed _ _ entry => some entry

/-- The lines that a report has on what is met: a head, and the configuration of a project. -/
def lines : Encounter → List String
  | resolved tree =>
    (String.ofList (List.replicate (2 * tree.path.depth) ' ') ++ "✓ " ++ tree.project.id ++ " (" ++
      tree.project.packaging.name ++ ") " ++ String.ofList (tree.fingerprint.toList.take 12)) ::
        CommandLine.detailLines tree.path.depth tree.project
  | failed depth name entry =>
    [String.ofList (List.replicate (2 * depth) ' ') ++ "✗ " ++ name ++ ": " ++
      entry.failure.rootCause.message]

end Encounter

/-- What stands at a place of a tree. At the place without indices stands the tree itself. -/
def encounterAt? (tree : ProjectTree) : List Nat → Option Encounter
  | [] => some (.resolved tree)
  | index :: place =>
    match tree.modules[index]? with
    | none => none
    | some (.resolved child) => child.encounterAt? place
    | some (.failed name path failure) =>
      if place = [] then some (.failed (tree.path.depth + 1) name ⟨path, failure⟩) else none

mutual

/-- All that stands in a tree, each aggregator before its modules, and these in declared order. -/
def encounters : ProjectTree → List Encounter
  | ⟨path, fingerprint, project, modules⟩ =>
    .resolved ⟨path, fingerprint, project, modules⟩ :: encountersOfEntries (path.depth + 1) modules

/-- All that stands at and below entries that are that many levels below the root. -/
def encountersOfEntries (depth : Nat) : List ModuleEntry → List Encounter
  | [] => []
  | .resolved tree :: rest => encounters tree ++ encountersOfEntries depth rest
  | .failed name path failure :: rest =>
    .failed depth name ⟨path, failure⟩ :: encountersOfEntries depth rest

end

theorem encounters_eq (tree : ProjectTree) :
    tree.encounters =
      .resolved tree :: encountersOfEntries (tree.path.depth + 1) tree.modules := by
  cases tree
  rw [encounters]

/-! ## The order of places -/

variable {tree : ProjectTree} {entry : ModuleEntry} {entries : List ModuleEntry} {depth : Nat}

/-- Whether something is met at a place at and below entries. -/
def MetAmong (depth : Nat) (entries : List ModuleEntry) : List Nat → Encounter → Prop
  | [], _ => False
  | index :: place, met =>
    match entries[index]? with
    | none => False
    | some (.resolved child) => child.encounterAt? place = some met
    | some (.failed name path failure) => place = [] ∧ met = .failed depth name ⟨path, failure⟩

theorem encounterAt?_cons_eq_some_iff {index : Nat} {place : List Nat} {met : Encounter} :
    tree.encounterAt? (index :: place) = some met ↔
      MetAmong (tree.path.depth + 1) tree.modules (index :: place) met := by
  rw [encounterAt?, MetAmong]
  split <;> simp [eq_comm]

theorem enumerates_encounters_of_entries
    (h : Enumerates (MetAmong (tree.path.depth + 1) tree.modules)
      (encountersOfEntries (tree.path.depth + 1) tree.modules)) :
    Enumerates (fun place met ↦ tree.encounterAt? place = some met) tree.encounters := by
  rw [encounters_eq]
  refine ((Enumerates.single [] (.resolved tree)).append h ?_).congr ?_
  · rintro _ _ place met ⟨rfl, rfl⟩ hmet
    cases place with
    | nil => cases hmet
    | cons index below => exact List.nil_lt_cons _ _
  · intro place met
    cases place with
    | nil => simp [encounterAt?, MetAmong, eq_comm]
    | cons index below => simp [encounterAt?_cons_eq_some_iff]

mutual

/-- All that stands in a tree is met once, in depth-first order. -/
theorem enumerates_encounters : (tree : ProjectTree) →
    Enumerates (fun place met ↦ tree.encounterAt? place = some met) tree.encounters
  | ⟨path, _, _, modules⟩ =>
    enumerates_encounters_of_entries (enumerates_encountersOfEntries (path.depth + 1) modules)

theorem enumerates_encountersOfEntries (depth : Nat) : (entries : List ModuleEntry) →
    Enumerates (MetAmong depth entries) (encountersOfEntries depth entries)
  | [] => by
    rw [encountersOfEntries]
    refine .nil fun place met hmet ↦ ?_
    cases place <;> simp [MetAmong] at hmet
  | .resolved tree :: rest => by
    rw [encountersOfEntries]
    exact enumerates_cons (enumerates_encounters tree) (enumerates_encountersOfEntries depth rest)
      (fun _ ↦ id) (fun _ ↦ id) (fun _ _ ↦ .rfl) fun _ _ _ ↦ .rfl
  | .failed name path failure :: rest => by
    have hfirst := Enumerates.single [] (Encounter.failed depth name ⟨path, failure⟩)
    have hrest := enumerates_encountersOfEntries depth rest
    rw [encountersOfEntries]
    apply enumerates_cons hfirst hrest
    · exact fun _ ↦ id
    · exact fun _ ↦ id
    · exact fun _ _ ↦ .rfl
    · exact fun _ _ _ ↦ .rfl

end

/-! ## What each traversal meets -/

/-- Whether a traversal of trees and of their entries goes depth first, so that it gives what it has
for each encounter, each aggregator before its modules, and these in declared order. -/
structure IsDepthFirst {β : Type} (onTree : ProjectTree → List β)
    (onEntries : Nat → List ModuleEntry → List β) (met : Encounter → List β) : Prop where
  tree : ∀ tree, onTree tree =
    met (.resolved tree) ++ onEntries (tree.path.depth + 1) tree.modules
  nil : ∀ depth, onEntries depth [] = []
  resolved : ∀ depth tree rest,
    onEntries depth (.resolved tree :: rest) = onTree tree ++ onEntries depth rest
  failed : ∀ depth name path failure rest, onEntries depth (.failed name path failure :: rest) =
    met (.failed depth name ⟨path, failure⟩) ++ onEntries depth rest

section IsDepthFirst

variable {β : Type} {onTree : ProjectTree → List β} {onEntries : Nat → List ModuleEntry → List β}
  {met : Encounter → List β}

mutual

/-- A traversal that goes depth first gives what it has for all that stands in the tree. -/
theorem IsDepthFirst.onTree_eq (h : IsDepthFirst onTree onEntries met) : (tree : ProjectTree) →
    onTree tree = tree.encounters.flatMap met
  | ⟨path, _, _, modules⟩ => by
    rw [h.tree, encounters_eq, List.flatMap_cons, h.onEntries_eq (path.depth + 1) modules]

theorem IsDepthFirst.onEntries_eq (h : IsDepthFirst onTree onEntries met) (depth : Nat) :
    (entries : List ModuleEntry) →
      onEntries depth entries = (encountersOfEntries depth entries).flatMap met
  | [] => by
    rw [h.nil, encountersOfEntries, List.flatMap_nil]
  | .resolved tree :: rest => by
    rw [h.resolved, encountersOfEntries, List.flatMap_append, h.onTree_eq tree,
      h.onEntries_eq depth rest]
  | .failed name path failure :: rest => by
    rw [h.failed, encountersOfEntries, List.flatMap_cons, h.onEntries_eq depth rest]

end

end IsDepthFirst

theorem isDepthFirst_walk : IsDepthFirst walk
    (fun _ entries ↦ walkFrom (entries.filterMap ModuleEntry.tree?))
    (fun met ↦ met.tree?.toList) where
  tree := by
    intro tree
    rw [walk_eq, children, walkFrom_eq_flatMap]
    rfl
  nil := by
    intro depth
    rw [List.filterMap_nil, walkFrom]
  resolved := by
    intro depth tree rest
    have htrees : (ModuleEntry.resolved tree :: rest).filterMap ModuleEntry.tree? =
        [tree] ++ rest.filterMap ModuleEntry.tree? := rfl
    rw [htrees, walkFrom_append, walk]
  failed := by
    intro depth name path failure rest
    rfl

theorem isDepthFirst_failureList : IsDepthFirst failureList
    (fun _ entries ↦ failuresOfEntries entries) (fun met ↦ met.failure?.toList) where
  tree := by
    intro tree
    cases tree
    rw [failureList]
    rfl
  nil := by
    intro depth
    rw [failuresOfEntries]
  resolved := by
    intro depth tree rest
    rw [failuresOfEntries]
  failed := by
    intro depth name path failure rest
    rw [failuresOfEntries]
    rfl

theorem isDepthFirst_treeLines : IsDepthFirst CommandLine.treeLines CommandLine.entryLines
    Encounter.lines where
  tree := by
    intro tree
    cases tree
    rw [CommandLine.treeLines, CommandLine.projectLines_eq, Encounter.lines]
  nil := by
    intro depth
    rw [CommandLine.entryLines]
  resolved := by
    intro depth tree rest
    rw [CommandLine.entryLines]
  failed := by
    intro depth name path failure rest
    rw [CommandLine.entryLines, CommandLine.failedLine_eq]
    rfl

/-- A walk meets the resolved projects of a tree. -/
theorem walk_eq_filterMap_encounters (tree : ProjectTree) :
    tree.walk = tree.encounters.filterMap Encounter.tree? := by
  rw [List.filterMap_eq_flatMap_toList, isDepthFirst_walk.onTree_eq]

/-- The collection of failures meets the failed modules of a tree. -/
theorem failureList_eq_filterMap_encounters (tree : ProjectTree) :
    tree.failureList = tree.encounters.filterMap Encounter.failure? := by
  rw [List.filterMap_eq_flatMap_toList, isDepthFirst_failureList.onTree_eq]

/-! ## How much stands in a tree -/

/-- Each entry is either a failure itself or the aggregator of some failures. -/
theorem length_failuresOfEntries (entries : List ModuleEntry) :
    (failuresOfEntries entries).length + (entries.filterMap ModuleEntry.tree?).length =
      entries.length + ((entries.filterMap ModuleEntry.tree?).flatMap failureList).length := by
  induction entries with
  | nil => rfl
  | cons entry rest ih =>
    cases entry with
    | resolved tree =>
      have htrees : (ModuleEntry.resolved tree :: rest).filterMap ModuleEntry.tree? =
          tree :: rest.filterMap ModuleEntry.tree? := rfl
      rw [failuresOfEntries, htrees, List.flatMap_cons]
      simp only [List.length_append, List.length_cons]
      omega
    | failed name path failure =>
      have htrees : (ModuleEntry.failed name path failure :: rest).filterMap ModuleEntry.tree? =
          rest.filterMap ModuleEntry.tree? := rfl
      rw [failuresOfEntries, htrees]
      simp only [List.length_cons]
      omega

theorem length_failureList (tree : ProjectTree) :
    tree.failureList.length + tree.children.length =
      tree.modules.length + (tree.children.flatMap failureList).length := by
  cases tree
  rw [failureList]
  exact length_failuresOfEntries _

/-- Every tree on the stack of a walk is visited, and each entry of a visited tree is either visited
or a failure. -/
theorem length_walkFrom_add_length_failures (stack : List ProjectTree) :
    (walkFrom stack).length + (stack.flatMap failureList).length =
      stack.length + ((walkFrom stack).flatMap (·.modules)).length := by
  fun_induction walkFrom stack with
  | case1 => rfl
  | case2 tree stack ih =>
    -- On the stack, a visited tree is replaced by its children.
    have hentries := length_failureList tree
    simp only [List.flatMap_append, List.flatMap_cons, List.length_append, List.length_cons] at ih ⊢
    omega

/-- Of all that stands in a tree, the walk visits the resolved projects. -/
theorem countP_isResolved_encounters (tree : ProjectTree) :
    tree.encounters.countP (·.tree?.isSome) = tree.walk.length := by
  rw [walk_eq_filterMap_encounters, List.length_filterMap_eq_countP]

theorem countP_isFailed_encounters (tree : ProjectTree) :
    tree.encounters.countP (·.failure?.isSome) = tree.failureList.length := by
  rw [failureList_eq_filterMap_encounters, List.length_filterMap_eq_countP]

/-- The report of a tree, line by line. -/
theorem treeReport_eq (tree : ProjectTree) (elapsed : Nanoseconds) :
    CommandLine.treeReport tree elapsed = String.join
      ((tree.encounters.flatMap Encounter.lines ++
        ["", "✓ Resolved " ++ tree.project.id, s!"  Projects: {tree.walk.length}",
          s!"  Failed: {tree.failureList.length}",
          "  Elapsed: " ++ CommandLine.elapsedText elapsed]).map (· ++ "\n")) := by
  rw [CommandLine.treeReport, isDepthFirst_treeLines.onTree_eq, CommandLine.unlines_eq]
  rfl

/-- A walk visits every resolved project of a tree once, and the failures are all failed modules,
each once, both in depth-first order. Together they are the root and all entries of the visited
trees. The report of a tree has a block of lines on everything that stands in it, in the same order:
a checked head and the configuration for a project, and a crossed line for a failed module. Its
counts are those of the blocks of each kind. -/
theorem traversals_of_encounters (tree : ProjectTree) (elapsed : Nanoseconds) :
    Enumerates (fun place subtree ↦ tree.encounterAt? place = some (.resolved subtree)) tree.walk ∧
      Enumerates (fun place entry ↦ ∃ depth name,
        tree.encounterAt? place = some (.failed depth name entry)) tree.failures.failures ∧
      tree.walk.length + tree.failures.failures.length =
        1 + (tree.walk.flatMap (·.modules)).length ∧
      ∃ blocks, Enumerates (fun place met ↦ tree.encounterAt? place = some met) blocks ∧
        blocks.filterMap Encounter.tree? = tree.walk ∧
        blocks.filterMap Encounter.failure? = tree.failures.failures ∧
        CommandLine.treeReport tree elapsed = String.join
          ((blocks.flatMap (fun
              | .resolved subtree =>
                (String.ofList (List.replicate (2 * subtree.path.depth) ' ') ++ "✓ " ++
                  subtree.project.id ++ " (" ++ subtree.project.packaging.name ++ ") " ++
                  String.ofList (subtree.fingerprint.toList.take 12)) ::
                    CommandLine.detailLines subtree.path.depth subtree.project
              | .failed depth name entry =>
                [String.ofList (List.replicate (2 * depth) ' ') ++ "✗ " ++ name ++ ": " ++
                  entry.failure.rootCause.message]) ++
            ["", "✓ Resolved " ++ tree.project.id,
              s!"  Projects: {blocks.countP (·.tree?.isSome)}",
              s!"  Failed: {blocks.countP (·.failure?.isSome)}",
              "  Elapsed: " ++ CommandLine.elapsedText elapsed]).map (· ++ "\n")) := by
  have hall := enumerates_encounters tree
  have hwalk := walk_eq_filterMap_encounters tree
  have hfailures := failureList_eq_filterMap_encounters tree
  refine ⟨?_, ?_, ?_, tree.encounters, hall, hwalk.symm, hfailures.symm, ?_⟩
  · rw [hwalk]
    apply (hall.filterMap Encounter.tree?).congr
    intro place subtree
    constructor
    · intro h
      exact ⟨_, h, rfl⟩
    · rintro ⟨met, h, hmet⟩
      cases met with
      | resolved other => exact Option.some.inj hmet ▸ h
      | failed depth name entry => cases hmet
  · rw [failures, hfailures]
    apply (hall.filterMap Encounter.failure?).congr
    intro place entry
    constructor
    · rintro ⟨depth, name, h⟩
      exact ⟨_, h, rfl⟩
    · rintro ⟨met, h, hmet⟩
      cases met with
      | resolved other => cases hmet
      | failed depth name other => exact ⟨depth, name, Option.some.inj hmet ▸ h⟩
  · have hcount := length_walkFrom_add_length_failures [tree]
    rw [List.flatMap_singleton, ← walk] at hcount
    exact hcount
  · rw [countP_isResolved_encounters, countP_isFailed_encounters, treeReport_eq]
    rfl

/-! ### A tree in which a module failed -/

def leafTree : ProjectTree where
  path := ⟨["a", "b"]⟩
  fingerprint := "b0b1b2b3b4b5b6b7b8b9"
  project :=
    { (default : Project) with
      artifactId := "b", version := some "2"
      effectiveProperties := .ofList [("color", "red")]
      effectivePlugins := [⟨"copy", .ofList [("from", .string "src")], some true⟩] }
  modules := []

def mixedTree : ProjectTree where
  path := ⟨["a"]⟩
  fingerprint := "a0a1a2a3a4a5a6a7a8a9"
  project := { (default : Project) with artifactId := "a", packaging := .pom }
  modules :=
    [.failed "gone" ⟨["a", "gone"]⟩ (.module ⟨["a", "gone"]⟩ (.notFound "/gone")),
      .resolved leafTree]

theorem treeReport_mixedTree :
    (∃ blocks, Enumerates (fun place met ↦ mixedTree.encounterAt? place = some met) blocks ∧
      blocks.filterMap Encounter.tree? = mixedTree.walk ∧
      blocks.countP (·.tree?.isSome) = 2 ∧ blocks.countP (·.failure?.isSome) = 1) ∧
    CommandLine.treeReport mixedTree 1500000000 =
      "✓ a (pom) a0a1a2a3a4a5\n  ✗ gone: descriptor not found: /gone\n" ++
      "  ✓ b:2 (jar) b0b1b2b3b4b5\n      color = red\n      plugin copy (skipped)\n" ++
      "        from: src\n\n✓ Resolved a\n  Projects: 2\n  Failed: 1\n  Elapsed: 1s 500ms\n" := by
  obtain ⟨-, -, -, blocks, hblocks, htrees, -, hreport⟩ :=
    traversals_of_encounters mixedTree 1500000000
  obtain rfl := hblocks.unique (enumerates_encounters mixedTree)
  refine ⟨⟨_, hblocks, htrees, rfl, rfl⟩, hreport.trans ?_⟩
  decide +kernel

end ProjectTree

end Reactor

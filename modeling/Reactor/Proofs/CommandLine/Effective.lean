import Reactor.Proofs.CommandLine.ExitCodes
import Reactor.Proofs.Json.Fields
import Reactor.Proofs.Tree.Queries

/-!
# Showing one module

The effective project of a module is shown alone as it is shown within its tree. If no module at
the queried position was resolved, the first failure at this position is told, and only if there is
none that there is no such module.
-/

namespace Reactor

open Json (Same)

theorem ModulePath.toJson_injective : Function.Injective ModulePath.toJson := by
  rintro ⟨names⟩ ⟨names'⟩ h
  have hstrings : names.map Json.string = names'.map Json.string := Json.array.inj h
  rw [List.map_injective_iff.2 (fun _ _ ↦ Json.string.inj) hstrings]

namespace ProjectTree

variable {tree subtree : ProjectTree} {node : Json}

/-! ## The documents within the document of a tree -/

/-- The documents of the modules in the document of a tree, its own included. -/
inductive NodeOf (document : Json) : Json → Prop
  | root : NodeOf document document
  | module {node item : Json} {items : List Json} (habove : NodeOf document node)
    (hitems : node.field? "modules" = some (.array items)) (hitem : item ∈ items) :
    NodeOf document item

/-- Whether a document tells of a resolved tree. -/
structure TellsOf (node : Json) (tree : ProjectTree) : Prop where
  path : node.field? "path" = some tree.path.toJson
  fingerprint : node.field? "fingerprint" = some (.string tree.fingerprint)
  project : node.field? "project" = some tree.project.toJson
  modules : node.field? "modules" = some (.array (entriesToJson tree.modules))

theorem tellsOf_toJson (tree : ProjectTree) : TellsOf tree.toJson tree := by
  cases tree
  rw [toJson]
  exact ⟨rfl, rfl, rfl, rfl⟩

def entryToJson : ModuleEntry → Json
  | .resolved tree =>
    .object [("status", .string "resolved"), ("path", tree.path.toJson),
      ("fingerprint", .string tree.fingerprint), ("project", tree.project.toJson),
      ("modules", .array (entriesToJson tree.modules))]
  | .failed name path failure =>
    .object [("status", .string "failed"), ("name", .string name), ("path", path.toJson),
      ("error", failure.toJson)]

theorem entriesToJson_eq_map (entries : List ModuleEntry) :
    entriesToJson entries = entries.map entryToJson := by
  induction entries with
  | nil => rw [entriesToJson, List.map_nil]
  | cons entry rest ih =>
    cases entry with
    | resolved tree =>
      cases tree
      rw [entriesToJson, ih]
      rfl
    | failed name path failure =>
      rw [entriesToJson, ih]
      rfl

/-- Every document in the document of a tree tells of one of its subtrees, unless it is that of a
failed module. -/
theorem tellsOf_of_nodeOf (h : NodeOf tree.toJson node) :
    (∃ subtree ∈ tree.walk, TellsOf node subtree) ∨
      node.field? "project" = none ∧ node.field? "modules" = none := by
  induction h with
  | root => exact .inl ⟨tree, tree.self_mem_walk, tellsOf_toJson tree⟩
  | module habove hitems hitem ih =>
    rcases ih with ⟨subtree, hsubtree, htells⟩ | ⟨-, hnone⟩
    · rw [htells.modules, entriesToJson_eq_map] at hitems
      obtain rfl := Json.array.inj (Option.some.inj hitems)
      obtain ⟨entry, hentry, rfl⟩ := List.mem_map.1 hitem
      cases entry with
      | failed name path failure => exact .inr ⟨rfl, rfl⟩
      | resolved child =>
        have hchild : child ∈ subtree.children := List.mem_filterMap.2 ⟨_, hentry, rfl⟩
        have hwalk : child ∈ tree.walk :=
          mem_walk_trans hsubtree (mem_walk_iff.2 (.inr ⟨child, hchild, child.self_mem_walk⟩))
        exact .inl ⟨child, hwalk, ⟨rfl, rfl, rfl, rfl⟩⟩
    · rw [hnone] at hitems
      cases hitems

/-- Every subtree has a document in the document of its tree. -/
theorem exists_nodeOf (h : subtree ∈ tree.walk) :
    ∃ node, NodeOf tree.toJson node ∧ TellsOf node subtree := by
  revert subtree
  apply forall_mem_walk
  · rintro parent ⟨node, hnode, htells⟩ child hchild
    obtain ⟨entry, hentry, hresolved⟩ := List.mem_filterMap.1 hchild
    cases entry with
    | failed name path failure => cases hresolved
    | resolved other =>
      obtain rfl := Option.some.inj hresolved
      refine ⟨entryToJson (.resolved other), .module hnode htells.modules ?_, rfl, rfl, rfl, rfl⟩
      rw [entriesToJson_eq_map]
      exact List.mem_map_of_mem hentry
  · exact ⟨tree.toJson, .root, tellsOf_toJson tree⟩

/-- Whether a document tells of a project at a position, with the given fingerprint, and in the same
way wherever it does. -/
structure ToldAt (document : Json) (path : ModulePath) (fingerprint : String) (project : Json) :
    Prop where
  exists_node : ∃ node, NodeOf document node ∧ node.field? "path" = some path.toJson ∧
    node.field? "project" ≠ none
  same : ∀ node, NodeOf document node → node.field? "path" = some path.toJson →
    ∀ told, node.field? "project" = some told →
      node.field? "fingerprint" = some (.string fingerprint) ∧ Same project told

/-- In the document of a tree with names, a subtree is told at its position only. -/
theorem toldAt_of_mem_walk (hnamed : tree.IsNamed) (hsubtree : subtree ∈ tree.walk) :
    ToldAt tree.toJson subtree.path subtree.fingerprint subtree.project.toJson.sortKeys where
  exists_node := by
    obtain ⟨node, hnode, htells⟩ := exists_nodeOf hsubtree
    exact ⟨node, hnode, htells.path, by simp [htells.project]⟩
  same := by
    intro node hnode hpath told htold
    rcases tellsOf_of_nodeOf hnode with ⟨other, hother, htells⟩ | ⟨hnone, -⟩
    · have hposition : other.path = subtree.path := by
        apply ModulePath.toJson_injective
        exact Option.some.inj (htells.path.symm.trans hpath)
      obtain rfl := hnamed.eq_of_path_eq hother hsubtree hposition
      obtain rfl := Option.some.inj (htells.project.symm.trans htold)
      exact ⟨htells.fingerprint, Json.same_sortKeys _⟩
    · rw [hnone] at htold
      cases htold

/-! ## The first failure at a position -/

/-- Whether the module with the given names below the root fails, and does so before all others with
these names. -/
def FailsFirst (tree : ProjectTree) (names : List String) (failed : ModuleFailure) : Prop :=
  ∃ place, FailedAt tree.modules place failed ∧ failed.path.segments.tail = names ∧
    ∀ place' failed', FailedAt tree.modules place' failed' →
      failed'.path.segments.tail = names → ¬place' < place

theorem failsFirst_of_find? {names : List String} {failed : ModuleFailure}
    (h : tree.failureList.find? (·.path.segments.tail = names) = some failed) :
    tree.FailsFirst names failed := by
  obtain ⟨place, hfailed, hnames, hfirst⟩ := (enumerates_failureList tree).exists_first_of_find? h
  refine ⟨place, hfailed, of_decide_eq_true hnames, ?_⟩
  intro place' failed' hfailed' hnames'
  exact hfirst place' failed' hfailed' (decide_eq_true hnames')

theorem names_ne_of_find?_eq_none {names : List String} {place : List Nat}
    {failed : ModuleFailure}
    (h : tree.failureList.find? (·.path.segments.tail = names) = none)
    (hfailed : FailedAt tree.modules place failed) : failed.path.segments.tail ≠ names := by
  intro hnames
  have hmem : failed ∈ tree.failureList := (enumerates_failureList tree).mem_iff.2 ⟨place, hfailed⟩
  exact List.find?_eq_none.1 h failed hmem (decide_eq_true hnames)

end ProjectTree

namespace CommandLine

open Engine (twoFiles)
open ProjectTree (queryNames NodeOf FailedAt ToldAt)

variable {env env' : Environment} {arguments arguments' : List String} {options : Options}
  {config : Config} {path query : String} {tree subtree : ProjectTree}

/-! ## What is shown of a module -/

/-- The document that shows one project, in the order in which it is printed. -/
theorem sortKeys_effectiveJson (tree : ProjectTree) :
    (effectiveJson tree).sortKeys =
      .object [("fingerprint", .string tree.fingerprint), ("path", .string tree.path.text),
        ("project", tree.project.toJson.sortKeys)] := by
  have hfirst : "fingerprint" < "path" := by decide
  have hlast : ¬"project" < "fingerprint" ∧ ¬"project" < "path" := by decide
  have hempty : (∅ : SortedMap Json).entries = [] := rfl
  rw [effectiveJson, Json.sortKeys]
  simp [Json.sortEntries, Json.sortKeys, SortedMap.ofList, SortedMap.insert, hempty,
    SortedMap.insertEntry, hfirst, hlast]

theorem showModule_of_found (h : tree.find? query = some subtree) :
    showModule tree query = .success (jsonText (.object
      [("fingerprint", .string subtree.fingerprint), ("path", .string subtree.path.text),
        ("project", subtree.project.toJson.sortKeys)])) := by
  rw [showModule, h, ← sortKeys_effectiveJson]

/-- A failed module is told if no module was resolved at the queried position. -/
theorem showModule_of_failed {failed : ModuleFailure} (h : tree.find? query = none)
    (hfailed : tree.failureList.find? (·.path.segments.tail = queryNames query) = some failed) :
    showModule tree query =
      .failure (s!"Module '{query}' failed to resolve: " ++ failed.failure.rootCause.message) := by
  simp only [showModule, h, List.drop_one, hfailed]

theorem showModule_of_absent (h : tree.find? query = none)
    (habsent : tree.failureList.find? (·.path.segments.tail = queryNames query) = none) :
    showModule tree query =
      .failure (s!"Module '{query}' not found below " ++ tree.project.id) := by
  simp only [showModule, h, List.drop_one, habsent]

/-- Without a timeout, `effective` shows the module at the queried position if it was resolved: the
text of its position, and the fingerprint and the project that the document of the whole tree tells
at this position. Otherwise it fails, with the cause of the first failure at this position if there
is one. -/
theorem run_effective (hfs : env'.fs = env.fs) (hformats : env'.formats = env.formats)
    (heffective : request? arguments = some (.run options (.effective path query)))
    (hresolve : request? arguments' = some (.run options (.resolve path .json)))
    (htimeout : options.timeout = none) (hconfig : configOf env.fs options = .ok config)
    (htree : (env.engine config).resolveTree env.fs env.clock path = .ok tree) :
    (∀ subtree ∈ tree.walk, subtree.path.segments.tail = queryNames query →
      ∃ document project, (run env' arguments').stdout = jsonText document ∧
        ToldAt document subtree.path subtree.fingerprint project ∧
        run env arguments = .success (jsonText (.object
          [("fingerprint", .string subtree.fingerprint), ("path", .string subtree.path.text),
            ("project", project)]))) ∧
      ((∀ subtree ∈ tree.walk, subtree.path.segments.tail ≠ queryNames query) →
        ((∃ place failed, FailedAt tree.modules place failed ∧
            failed.path.segments.tail = queryNames query) →
          ∃ failed, tree.FailsFirst (queryNames query) failed ∧
            run env arguments = .failure
              (s!"Module '{query}' failed to resolve: " ++ failed.failure.rootCause.message)) ∧
        ((∀ place failed, FailedAt tree.modules place failed →
            failed.path.segments.tail ≠ queryNames query) →
          run env arguments =
            .failure (s!"Module '{query}' not found below " ++ tree.project.id))) := by
  have hshown : run env arguments = showModule tree query := run_of_ok heffective hconfig htree
  have hdocument : (run env' arguments').stdout = jsonText tree.toJson := by
    rw [run_eq_of_same hfs hformats hresolve htimeout hconfig,
      show Command.path (.resolve path .json) = path from rfl, htree]
    exact Outcome.stdout_ofTree tree _
  obtain ⟨hnamed, -⟩ := Engine.isNamed_of_resolveTree htree
  constructor
  · intro subtree hsubtree hnames
    have hfound := (Engine.find?_eq_some_iff htree).2 ⟨hsubtree, hnames⟩
    have htold := ProjectTree.toldAt_of_mem_walk hnamed hsubtree
    exact ⟨tree.toJson, _, hdocument, htold, hshown.trans (showModule_of_found hfound)⟩
  · intro hunresolved
    have hnotFound : tree.find? query = none := by
      rw [Option.eq_none_iff_forall_ne_some]
      intro subtree hfound
      obtain ⟨hsubtree, hnames⟩ := (Engine.find?_eq_some_iff htree).1 hfound
      exact hunresolved subtree hsubtree hnames
    rw [hshown]
    cases hfirst : tree.failureList.find? (·.path.segments.tail = queryNames query) with
    | none =>
      refine ⟨?_, fun _ ↦ showModule_of_absent hnotFound hfirst⟩
      rintro ⟨place, failed, hfailed, hnames⟩
      exact absurd hnames (ProjectTree.names_ne_of_find?_eq_none hfirst hfailed)
    | some failed =>
      have hfails := ProjectTree.failsFirst_of_find? hfirst
      refine ⟨fun _ ↦ ⟨failed, hfails, showModule_of_failed hnotFound hfirst⟩, ?_⟩
      intro hnone
      obtain ⟨place, hfailed, hnames, -⟩ := hfails
      exact absurd hnames (hnone place failed hfailed)

/-! ## A module next to a missing one -/

theorem presentTree_mem_walk : presentTree ∈ gapTree.walk :=
  ProjectTree.mem_walk_iff.2 (.inr ⟨presentTree, .head _, presentTree.self_mem_walk⟩)

theorem request?_gap : request? ["effective", "--module", "b.json", "/a.json"] =
      some (.run noOptions (.effective "/a.json" "b.json")) ∧
    request? ["resolve", "--format", "json", "/a.json"] =
      some (.run noOptions (.resolve "/a.json" .json)) :=
  ⟨rfl, rfl⟩

theorem run_effective_gap :
    presentTree ∈ gapTree.walk ∧ presentTree.path.segments.tail = queryNames "b.json" ∧
      ∃ document project,
        (run (gapEnvironment 2) ["resolve", "--format", "json", "/a.json"]).stdout =
            jsonText document ∧
          ToldAt document ⟨["a", "b.json"]⟩ presentProject.fingerprint project ∧
          run (gapEnvironment 1) ["effective", "--module", "b.json", "/a.json"] =
            .success (jsonText (.object [("fingerprint", .string presentProject.fingerprint),
              ("path", .string "a > b.json"), ("project", project)])) := by
  have hnames : presentTree.path.segments.tail = queryNames "b.json" := rfl
  obtain ⟨hshown, -⟩ := @run_effective (gapEnvironment 1) (gapEnvironment 2) _ _ _ _ _ _ _ rfl rfl
    request?_gap.1 request?_gap.2 rfl (configOf_noOptions _) (resolveTree_gap fun _ _ ↦ 1)
  obtain ⟨document, project, hdocument, htold, hrun⟩ :=
    hshown presentTree presentTree_mem_walk hnames
  exact ⟨presentTree_mem_walk, hnames, document, project, hdocument, htold, hrun⟩

/-- The position of a module is shown as one text, and not as the list of names that the document of
the whole tree has. -/
theorem effective_path_gap :
    (∀ name ∈ gapProject.modules, IsQueryName name) ∧
      presentTree ∈ gapTree.walk ∧ presentTree.path.segments.tail = queryNames "b.json" ∧
      ∃ shown node,
        run (gapEnvironment 1) ["effective", "--module", "b.json", "/a.json"] =
            .success (jsonText shown) ∧
          (run (gapEnvironment 1) ["resolve", "--format", "json", "/a.json"]).stdout =
            jsonText gapTree.toJson ∧
          NodeOf gapTree.toJson node ∧
          shown.field? "path" = some (.string "a > b.json") ∧
          node.field? "path" = some (.array [.string "a", .string "b.json"]) ∧
          ¬Same (.string "a > b.json") (.array [.string "a", .string "b.json"]) := by
  obtain ⟨heffective, hresolve⟩ := request?_gap
  have hconfig := configOf_noOptions twoFiles
  have htree := resolveTree_gap fun _ _ ↦ 1
  have hrun : run (gapEnvironment 1) ["effective", "--module", "b.json", "/a.json"] =
      .success (jsonText (effectiveJson presentTree).sortKeys) :=
    @run_of_ok (gapEnvironment 1) _ _ _ _ _ heffective hconfig htree
  have hdocument : (run (gapEnvironment 1) ["resolve", "--format", "json", "/a.json"]).stdout =
      jsonText gapTree.toJson := by
    rw [@run_of_ok (gapEnvironment 1) _ _ _ _ _ hresolve hconfig htree]
    exact Outcome.stdout_ofTree gapTree _
  obtain ⟨node, hnode, htells⟩ := ProjectTree.exists_nodeOf presentTree_mem_walk
  refine ⟨by decide, presentTree_mem_walk, rfl, _, node, hrun, hdocument, hnode, ?_, htells.path, ?_⟩
  · rw [sortKeys_effectiveJson]
    rfl
  · rintro ⟨⟩

end CommandLine

end Reactor

import Reactor.Proofs.Project.MissingProperties
import Reactor.Proofs.Tree.ErrorModes
import Reactor.Proofs.Tree.LocatedParent

/-!
# Trees without missing properties

A tree that is resolved without a missing property does not depend on what is done about missing
properties. The names of modules, which decide which files are read, and the coordinates, which
decide which parents are found on disk, are expanded in the same way at every level.
-/

namespace Reactor

def Engine.withMissingProperty (engine : Engine) (policy : MissingProperty) : Engine :=
  { engine with config := { engine.config with missingProperty := policy } }

/-- The parent that is found without a missing property is found, too, if they are kept. -/
theorem ParentSource.carriesOver_search {fs : FileSystem} {loader : Loader} (visited : List Visit)
    (d : Descriptor) :
    CarriesOver (search fs loader .fail visited d) (search fs loader .keep visited d) := by
  induction visited, d using search_induction fs loader with
  | step visited d ih =>
    rw [search_eq_ascend, search_eq_ascend]
    apply (CarriesOver.refl (ascend fs loader visited d)).bind
    intro found hfound
    cases found with
    | none => exact .refl _
    | some found =>
      obtain ⟨ref, candidate⟩ := found
      obtain ⟨href, hload, hnew⟩ := ascend_eq_ok_some hfound
      apply (ih candidate ⟨ref, href, hload⟩ hnew).bind
      intro grandparent _
      apply (Project.carriesOver_resolve candidate grandparent).bind
      intro parent _
      exact .refl _

theorem ParentSource.carriesOver_locate (source : ParentSource) (fs : FileSystem) (loader : Loader)
    (d : Descriptor) :
    CarriesOver (source.locate fs loader .fail d) (source.locate fs loader .keep d) := by
  cases source with
  | nowhere => exact .refl _
  | relativePath => exact carriesOver_search _ d

namespace Aggregation

variable {strict lenient : Aggregation}

/-- A project has the same tree if its modules come to the same outcomes. -/
theorem subtree_eq_ok_of_entries {branch : List Visit} {path : ModulePath} {project : Project}
    {tree : ProjectTree}
    (hentries : ∀ outcomes, strict.entries branch path project 0 [] project.modules = .ok outcomes →
      ProjectTree.failuresOfEntries outcomes = [] →
      lenient.entries branch path project 0 [] project.modules = .ok outcomes)
    (h : strict.subtree branch path project = .ok tree) (hclean : tree.failureList = []) :
    lenient.subtree branch path project = .ok tree := by
  rw [subtree_eq] at h ⊢
  obtain ⟨outcomes, houtcomes, rfl⟩ := map_eq_ok.1 h
  rw [ProjectTree.failureList_ofProject] at hclean
  exact map_eq_ok.2 ⟨outcomes, hentries outcomes houtcomes hclean, rfl⟩

variable (hfs : strict.fs = lenient.fs) (hloader : strict.loader = lenient.loader)
  (hstrict : strict.config.missingProperty = .fail)
  (hlenient : lenient.config.missingProperty = .keep)

include hfs hloader hstrict hlenient

theorem carriesOver_moduleProject (project : Project) (siblings : List String) (file : String) :
    CarriesOver (strict.moduleProject project siblings file)
      (lenient.moduleProject project siblings file) := by
  unfold moduleProject loadModule
  rw [hfs, hloader, hstrict, hlenient]
  apply CarriesOver.bind
  · apply (CarriesOver.refl (lenient.loader.load lenient.fs file)).bind
    intro d _
    exact Project.carriesOver_resolve d (some project)
  · intro child _
    exact .refl _

theorem turn_eq_resolved_of_strict {branch : List Visit} {project child : Project}
    {siblings : List String} {name location : String}
    (h : strict.turn branch project siblings name = .resolved location child) :
    lenient.turn branch project siblings name = .resolved location child := by
  obtain ⟨file, hfile, rfl, hnew, hchild⟩ := turn_eq_resolved h
  have hchild' := carriesOver_moduleProject hfs hloader hstrict hlenient project siblings file
    child hchild
  rw [hfs] at hfile hnew ⊢
  rw [hloader] at hfile
  exact turn_of_moduleProject hfile hnew hchild'

variable (hdeadline : lenient.config.deadline = none)

include hdeadline

/-- Modules of which none fails come to the same outcomes. -/
theorem entries_eq_ok_of_strict (branch : List Visit) (path : ModulePath) (project : Project)
    (index : Nat) (siblings names : List String) :
    ∀ outcomes, strict.entries branch path project index siblings names = .ok outcomes →
      ProjectTree.failuresOfEntries outcomes = [] →
      lenient.entries branch path project index siblings names = .ok outcomes := by
  induction branch, path, project, index, siblings, names using entries_induction strict with
  | nil branch path project index siblings =>
    intro outcomes h _
    rw [entries_nil] at h ⊢
    exact h
  | cons branch path project index siblings name rest hrest hchild =>
    intro outcomes h hclean
    rcases entries_cons_eq_ok h with ⟨cause, others, -, -, -, rfl⟩ |
      ⟨location, tree, others, hturn, htree, hothers, rfl⟩
    · rw [ProjectTree.failuresOfEntries_failed] at hclean
      cases hclean
    · rw [ProjectTree.failuresOfEntries_resolved, List.append_eq_nil_iff] at hclean
      have hturn' := turn_eq_resolved_of_strict hfs hloader hstrict hlenient hturn
      have hothers' := hrest _ others hothers hclean.2
      have htree' := subtree_eq_ok_of_entries (hchild location tree.project hturn) htree hclean.1
      rw [entries_cons, overdue?_eq_none hdeadline, hturn']
      simp only [htree', hothers']
      rfl

theorem tree_eq_ok_of_strict {project : Project} {tree : ProjectTree}
    (h : strict.tree project = .ok tree) (hclean : tree.failureList = []) :
    lenient.tree project = .ok tree := by
  unfold Aggregation.tree at h ⊢
  rw [← hfs]
  apply subtree_eq_ok_of_entries _ h hclean
  exact entries_eq_ok_of_strict hfs hloader hstrict hlenient hdeadline _ _ _ _ _ _

end Aggregation

namespace Engine

variable {engine : Engine} {fs : FileSystem} {clock : Clock} {path : String} {tree : ProjectTree}

/-- Keeping missing properties changes nothing if none is missing: without a deadline, a tree that
is resolved without any failure while missing properties are failures is resolved to the same tree
if they are kept. -/
theorem resolveTree_keep_of_fail (hdeadline : engine.config.deadline = none)
    (h : (engine.withMissingProperty .fail).resolveTree fs clock path = .ok tree)
    (hclean : tree.failures.failures = []) (clock' : Clock) :
    (engine.withMissingProperty .keep).resolveTree fs clock' path = .ok tree := by
  rw [resolveTree_eq_locateParent] at h ⊢
  obtain ⟨root, hroot, h⟩ := bind_eq_ok.1 h
  obtain ⟨parent, hparent, h⟩ := bind_eq_ok.1 h
  obtain ⟨project, hproject, htree⟩ := bind_eq_ok.1 h
  have hparent' : (engine.withMissingProperty .keep).locateParent fs root = .ok parent :=
    ParentSource.carriesOver_locate engine.parentSource fs engine.loader root parent hparent
  have hproject' : (engine.withMissingProperty .keep).resolve root parent = .ok project :=
    Project.carriesOver_resolve root parent project hproject
  have htree' : (engine.withMissingProperty .keep).aggregate fs clock' project = .ok tree :=
    @Aggregation.tree_eq_ok_of_strict
      ⟨fs, engine.loader, (engine.withMissingProperty .fail).config, clock⟩
      ⟨fs, engine.loader, (engine.withMissingProperty .keep).config, clock'⟩
      rfl rfl rfl rfl hdeadline project tree htree hclean
  exact bind_eq_ok.2 ⟨root, hroot, bind_eq_ok.2 ⟨parent, hparent',
    bind_eq_ok.2 ⟨project, hproject', htree'⟩⟩⟩

/-! ## A module that is named by a property -/

/-- A format for two files of which the upper one names its module by a property that neither of
them declares. -/
def namedModuleFormat : Format where
  name := "named module"
  extensions := ["json"]
  read := fun _ path _ ↦ .ok (.mapping
    (if path = "/a.json" then
      [("artifactId", .string "a"), ("packaging", .string "pom"),
        ("modules", .sequence [.string "$\x7bmodule\x7d.json"])]
    else
      [("artifactId", .string "b"), ("parent", .mapping [("artifactId", .string "a"),
        ("relativePath", .string "a.json")])]))

def namedModuleEngine (policy : MissingProperty) : Engine :=
  ⟨[namedModuleFormat], .relativePath,
    ⟨.collectAll, policy, none, SortedMap.ofList [("module", "b")]⟩⟩

def namingFile : Descriptor :=
  { upperFile with
    properties := SortedMap.ofList [("module", "b")], modules := ["$\x7bmodule\x7d.json"] }

def namingProject : Project :=
  { upperProject with
    declared := namingFile, effectiveProperties := SortedMap.ofList [("module", "b")] }

def namedProject : Project :=
  { lowerProject with
    ancestors := [namingProject], effectiveProperties := SortedMap.ofList [("module", "b")] }

def namedModuleTree : ProjectTree :=
  .ofProject (.root "a") namingProject [.resolved (.ofProject ⟨["a", "b.json"]⟩ namedProject [])]

variable {policy : MissingProperty}

theorem load_namedModule :
    (namedModuleEngine policy).load twoFiles "/a.json" = .ok namingFile ∧
      (namedModuleEngine policy).load twoFiles "/b.json" = .ok lowerFile :=
  load_twoFiles (namedModuleEngine policy)

theorem resolveTree_namedModule (clock : Clock) :
    (namedModuleEngine .fail).resolveTree twoFiles clock "/a.json" = .ok namedModuleTree := by
  obtain ⟨hupper, hlower⟩ := @load_namedModule .fail
  have hnaming : (namedModuleEngine .fail).resolve namingFile none = .ok namingProject := rfl
  have hnamed : (namedModuleEngine .fail).resolve lowerFile (some namingProject) =
      .ok namedProject := rfl
  rw [resolveTree_of_orphan hupper rfl hnaming]
  exact aggregate_lower rfl rfl rfl rfl rfl hlower hnamed rfl clock

theorem resolveTree_keep_namedModule :
    (namedModuleEngine .fail).resolveTree twoFiles (fun _ _ ↦ 0) "/a.json" = .ok namedModuleTree ∧
      namedModuleTree.failures.failures = [] ∧
      (namedModuleEngine .keep).resolveTree twoFiles (fun _ _ ↦ 1) "/a.json" =
        .ok namedModuleTree := by
  have hstrict := resolveTree_namedModule fun _ _ ↦ 0
  have hclean : namedModuleTree.failures.failures = [] := rfl
  exact ⟨hstrict, hclean,
    @resolveTree_keep_of_fail (namedModuleEngine .fail) _ _ _ _ rfl hstrict hclean fun _ _ ↦ 1⟩

end Engine

end Reactor

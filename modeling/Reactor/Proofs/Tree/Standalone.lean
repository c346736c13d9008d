import Reactor.Engine
import Reactor.Proofs.Project.Ancestors
import Reactor.Proofs.Tree.ParentChain
import Reactor.Proofs.Tree.Position
import Reactor.Proofs.Workspace.NormalPath

/-!
# Resolving a module on its own

The parent of a module inside a tree is the project that aggregates it. The parent of the same
module on its own is looked for on disk. If every module on the way from the root of the tree refers
to its aggregator and finds it on disk, both are the same project, and so is all that follows from
it: the module on its own is the root of the same tree.
-/

namespace Reactor

open Relation (TransGen)

/-! ## Projects that stand on their own -/

/-- A project that results from its descriptor file alone, with the parent that is found on disk. -/
structure Engine.Standalone (engine : Engine) (fs : FileSystem) (project : Project) : Prop where
  loaded : ∃ path, engine.load fs path = .ok project.declared
  resolved : ∃ parent,
    ParentSource.search fs engine.loader engine.config.missingProperty
      [⟨project.location, project.artifactId⟩] project.declared = .ok parent ∧
    engine.resolve project.declared parent = .ok project

/-- Whether a module needs no parent or finds its aggregator as its parent on disk: the reference
designates the aggregating project, and its path leads to that project's descriptor file. -/
def Engine.Attached (engine : Engine) (fs : FileSystem) (aggregator module : Project) : Prop :=
  ∀ ref ∈ module.declared.parentRef, aggregator.isReferencedBy ref = true ∧
    engine.loader.Designates fs (Path.join module.baseDir ref.searchPath) aggregator.location

/-- The subtrees of a tree that are reached through modules that find their aggregators. -/
inductive Engine.Reaches (engine : Engine) (fs : FileSystem) (root : ProjectTree) :
    ProjectTree → Prop
  | refl : Reaches engine fs root root
  | step {tree module : ProjectTree} (htree : Reaches engine fs root tree)
    (hmodule : module ∈ tree.children)
    (hattached : engine.Attached fs tree.project module.project) : Reaches engine fs root module

namespace Engine

variable {engine : Engine} {fs : FileSystem} {clock : Clock} {path : String}
  {project parent : Project} {d : Descriptor} {root tree module : ProjectTree}

theorem Standalone.location (h : engine.Standalone fs project) :
    project.location = project.declared.location := by
  obtain ⟨parent, -, hresolve⟩ := h.resolved
  exact Project.location_of_resolve hresolve

theorem Standalone.artifactId (h : engine.Standalone fs project) :
    project.artifactId = project.declared.artifactId := by
  obtain ⟨parent, -, hresolve⟩ := h.resolved
  exact Project.artifactId_of_resolve hresolve

theorem Standalone.canonical_location (h : engine.Standalone fs project) (hfs : fs.WellFormed) :
    fs.canonical project.location = project.location := by
  obtain ⟨path, hload⟩ := h.loaded
  rw [h.location, Loader.canonical_location hfs hload]

/-- The chain of parents of a standalone project never leads back to the project. -/
theorem Standalone.location_ne (h : engine.Standalone fs project)
    (hchain : TransGen (ParentSource.Leads fs engine.loader) project.declared d) :
    d.location ≠ project.location := by
  obtain ⟨parent, hsearch, -⟩ := h.resolved
  have hnew := ParentSource.onBranch_eq_false_of_transGen hsearch hchain
  intro heq
  simp [FileSystem.onBranch, heq] at hnew

theorem ancestorsOf_of_not_parentRef (h : d.parentRef = none)
    (supplied supplied' : Option Project) :
    Project.ancestorsOf d supplied = Project.ancestorsOf d supplied' := by
  rw [Project.ancestorsOf, Project.ancestorsOf, h]

/-- Without a parent reference the supplied parent makes no difference. -/
theorem resolve_of_not_parentRef (h : d.parentRef = none) (supplied supplied' : Option Project) :
    engine.resolve d supplied = engine.resolve d supplied' := by
  rw [resolve, resolve, Project.resolve, Project.resolve, Project.inherit, Project.inherit,
    ancestorsOf_of_not_parentRef h supplied supplied']

/-- The search of a module for its parent starts at the aggregator and goes on as the search of the
aggregator did, since neither of the two is met again. -/
theorem Standalone.search_of_leads {aggregator : Project} (h : engine.Standalone fs aggregator)
    (hload : engine.load fs path = .ok d) (hne : d.location ≠ aggregator.location)
    {ref : ParentRef} (href : d.parentRef = some ref)
    (hdesignates : aggregator.isReferencedBy ref = true)
    (hfound : engine.loader.load fs (Path.join d.baseDir ref.searchPath) =
      .ok aggregator.declared) (artifactId : String) :
    ParentSource.search fs engine.loader engine.config.missingProperty
      [⟨d.location, artifactId⟩] d = .ok (some aggregator) := by
  obtain ⟨parent, hsearch, hresolve⟩ := h.resolved
  have hleads : ParentSource.Leads fs engine.loader d aggregator.declared := ⟨ref, href, hfound⟩
  have hnew : FileSystem.onBranch [⟨d.location, artifactId⟩] aggregator.declared.location =
      false := by
    rw [← h.location]
    simp [FileSystem.onBranch, hne]
  have hgrandparent : ParentSource.search fs engine.loader engine.config.missingProperty
      ([⟨d.location, artifactId⟩] ++ [⟨aggregator.declared.location,
        aggregator.declared.artifactId⟩]) aggregator.declared = .ok parent := by
    refine ParentSource.search_of_search hsearch fun next hnext ↦ ?_
    have hback : next.location ≠ d.location := by
      intro heq
      obtain ⟨path', hnext'⟩ := ParentSource.exists_load_of_transGen hnext
      obtain rfl := Loader.eq_of_location_eq hnext' hload heq
      exact h.location_ne (hnext.tail hleads) h.location.symm
    have haggregator := h.location_ne hnext
    rw [h.location] at haggregator
    simp [FileSystem.onBranch, hback.symm, haggregator.symm]
  calc
    _ = (do
          let found ← engine.resolve aggregator.declared parent
          .ok (if found.isReferencedBy ref then some found else none) :
          Except Failure (Option Project)) := by
      rw [ParentSource.search_of_leads href hfound hnew, hgrandparent]
      rfl
    _ = .ok (some aggregator) := by
      rw [hresolve]
      simp [bind, Except.bind, hdesignates]

/-- A module that is attached to a standalone project is a standalone project. -/
theorem Standalone.of_attached {aggregator : Project} (h : engine.Standalone fs aggregator)
    (hload : engine.load fs path = .ok d)
    (hresolve : engine.resolve d (some aggregator) = .ok project)
    (hne : d.location ≠ aggregator.location) (hattached : engine.Attached fs aggregator project) :
    engine.Standalone fs project := by
  obtain rfl := Project.declared_of_resolve hresolve
  refine ⟨⟨path, hload⟩, ?_⟩
  rw [Project.location_of_resolve hresolve]
  cases href : project.declared.parentRef with
  | none =>
    refine ⟨none, ?_, ?_⟩
    · rw [ParentSource.search_eq, href]
    · rw [resolve_of_not_parentRef href none (some aggregator), hresolve]
  | some ref =>
    obtain ⟨hdesignates, hpath⟩ := hattached ref href
    obtain ⟨path', hload'⟩ := h.loaded
    rw [h.location] at hpath
    have hfound := Loader.load_of_designates hload' hpath
    exact ⟨some aggregator, h.search_of_leads hload hne href hdesignates hfound _, hresolve⟩

/-! ## The tree of a standalone project -/

/-- Looking for the parent of a root without a parent reference finds none. -/
theorem resolveTree_eq_locateParent (clock : Clock) (path : String) :
    engine.resolveTree fs clock path = (do
      let d ← engine.load fs path
      let parent ← engine.locateParent fs d
      let project ← engine.resolve d parent
      engine.aggregate fs clock project) := by
  rw [resolveTree]
  congr 1
  funext d
  cases href : d.parentRef with
  | none =>
    have hnone : engine.locateParent fs d = .ok none := by
      unfold locateParent ParentSource.locate
      cases engine.parentSource with
      | nowhere => rfl
      | relativePath =>
        simp only
        rw [ParentSource.search_eq, href]
    rw [hnone]
    rfl
  | some ref =>
    rw [Option.isSome_some, if_pos rfl]

/-- With parents looked for on disk, the search also covers a root without a parent reference. -/
theorem resolveTree_eq (hsource : engine.parentSource = .relativePath) (clock : Clock)
    (path : String) :
    engine.resolveTree fs clock path = (do
      let d ← engine.load fs path
      let parent ← ParentSource.search fs engine.loader engine.config.missingProperty
        [⟨fs.canonical d.location, d.artifactId⟩] d
      let project ← engine.resolve d parent
      engine.aggregate fs clock project) := by
  rw [resolveTree_eq_locateParent]
  simp only [locateParent, hsource, ParentSource.locate]

theorem resolveTree_of_load (hsource : engine.parentSource = .relativePath)
    {supplied : Option Project} (hload : engine.load fs path = .ok d)
    (hsearch : ParentSource.search fs engine.loader engine.config.missingProperty
      [⟨fs.canonical d.location, d.artifactId⟩] d = .ok supplied)
    (hresolve : engine.resolve d supplied = .ok project) (clock : Clock) :
    engine.resolveTree fs clock path = engine.aggregate fs clock project := by
  rw [resolveTree_eq hsource, hload]
  simp only [bind, Except.bind, hsearch, hresolve]

/-- A root without a parent reference is aggregated as it is resolved on its own. -/
theorem resolveTree_of_orphan (hload : engine.load fs path = .ok d) (horphan : d.parentRef = none)
    (hresolve : engine.resolve d none = .ok project) (clock : Clock) :
    engine.resolveTree fs clock path = engine.aggregate fs clock project := by
  rw [resolveTree, hload]
  simp only [bind, Except.bind, horphan, Option.isSome_none, Bool.false_eq_true, if_false, hresolve]

/-- The engine resolves the file of a standalone project to that project. -/
theorem Standalone.resolveTree (h : engine.Standalone fs project) (hfs : fs.WellFormed)
    (hsource : engine.parentSource = .relativePath) (clock : Clock) :
    engine.resolveTree fs clock project.location = engine.aggregate fs clock project := by
  obtain ⟨path, hload⟩ := h.loaded
  obtain ⟨parent, hsearch, hresolve⟩ := h.resolved
  rw [h.location, h.artifactId, ← Loader.canonical_location hfs hload] at hsearch
  have hlocation : engine.load fs project.declared.location = .ok project.declared :=
    Loader.load_location hfs hload
  rw [h.location]
  exact resolveTree_of_load hsource hlocation hsearch hresolve clock

/-- The root of a tree is a standalone project. -/
theorem standalone_of_resolveTree (hfs : fs.WellFormed)
    (hsource : engine.parentSource = .relativePath)
    (h : engine.resolveTree fs clock path = .ok root) :
    engine.Standalone fs root.project ∧ engine.aggregate fs clock root.project = .ok root := by
  rw [resolveTree_eq hsource] at h
  obtain ⟨d, hload, h⟩ := bind_eq_ok.1 h
  obtain ⟨parent, hsearch, h⟩ := bind_eq_ok.1 h
  obtain ⟨project, hresolve, htree⟩ := bind_eq_ok.1 h
  obtain ⟨-, rfl⟩ := Aggregation.parts_of_subtree htree
  obtain rfl := Project.declared_of_resolve hresolve
  refine ⟨⟨⟨path, hload⟩, parent, ?_, hresolve⟩, htree⟩
  rw [Project.location_of_resolve hresolve, Project.artifactId_of_resolve hresolve]
  rw [Loader.canonical_location hfs hload] at hsearch
  exact hsearch

/-- What holds of every subtree that is reached: its project stands on its own, and the subtree was
aggregated on a branch that holds the project. -/
structure Aggregated (engine : Engine) (fs : FileSystem) (clock : Clock) (tree : ProjectTree) :
    Prop where
  standalone : engine.Standalone fs tree.project
  subtree : ∃ branch, FileSystem.onBranch branch tree.project.location = true ∧
    Aggregation.subtree ⟨fs, engine.loader, engine.config, clock⟩ branch tree.path tree.project =
      .ok tree

theorem aggregated_of_resolveTree (hfs : fs.WellFormed)
    (hsource : engine.parentSource = .relativePath)
    (h : engine.resolveTree fs clock path = .ok root) : engine.Aggregated fs clock root := by
  obtain ⟨hstandalone, htree⟩ := standalone_of_resolveTree hfs hsource h
  have hcanonical := hstandalone.canonical_location hfs
  have hsubtree : Aggregation.subtree ⟨fs, engine.loader, engine.config, clock⟩
      [⟨fs.canonical root.project.location, root.project.artifactId⟩]
      (.root root.project.artifactId) root.project = .ok root := htree
  obtain ⟨hpath, -⟩ := Aggregation.parts_of_subtree hsubtree
  rw [← hpath] at hsubtree
  exact ⟨hstandalone, _, by simp [FileSystem.onBranch, hcanonical], hsubtree⟩

theorem Aggregated.of_attached (h : engine.Aggregated fs clock tree)
    (hmodule : module ∈ tree.children)
    (hattached : engine.Attached fs tree.project module.project) :
    engine.Aggregated fs clock module := by
  obtain ⟨branch, hbranch, hsubtree⟩ := h.subtree
  obtain ⟨name, siblings, location, hturn, hmoduleTree⟩ :=
    Aggregation.exists_turn_of_mem_children hsubtree hmodule
  obtain ⟨file, hfile, rfl, hnew, hproject⟩ := Aggregation.turn_eq_resolved hturn
  obtain ⟨d, hload, hresolve⟩ := Aggregation.moduleProject_eq_ok hproject
  have hlocation : fs.canonical file = d.location := Loader.canonical_of_load hfile hload
  have hne : d.location ≠ tree.project.location := by
    intro heq
    rw [hlocation, heq, hbranch] at hnew
    cases hnew
  obtain ⟨hpath, -⟩ := Aggregation.parts_of_subtree hmoduleTree
  rw [← hpath] at hmoduleTree
  refine ⟨h.standalone.of_attached hload hresolve hne hattached, _, ?_, hmoduleTree⟩
  rw [Project.location_of_resolve hresolve]
  simp [FileSystem.onBranch, hlocation]

theorem aggregated_of_reaches (hroot : engine.Aggregated fs clock root)
    (h : engine.Reaches fs root tree) : engine.Aggregated fs clock tree := by
  induction h with
  | refl => exact hroot
  | step _ hmodule hattached ih => exact ih.of_attached hmodule hattached

/-- On a well-formed file system, a module that is reached through modules which find their
aggregators resolves on its own to the same tree as inside its tree, only that its position is that
of a root. -/
theorem resolveTree_of_reaches (hfs : fs.WellFormed)
    (hsource : engine.parentSource = .relativePath)
    (hcollect : engine.config.errorMode = .collectAll)
    (hdeadline : engine.config.deadline = none)
    (h : engine.resolveTree fs clock path = .ok root) (hreaches : engine.Reaches fs root tree)
    (clock' : Clock) :
    engine.resolveTree fs clock' tree.project.location =
      .ok (tree.mapPaths (.rebase tree.path (.root tree.project.artifactId))) := by
  have haggregated := aggregated_of_reaches (aggregated_of_resolveTree hfs hsource h) hreaches
  have hstandalone := haggregated.standalone
  obtain ⟨branch, hbranch, hsubtree⟩ := haggregated.subtree
  have hwithin : Aggregation.Within [⟨fs.canonical tree.project.location,
      tree.project.artifactId⟩] branch := by
    intro location hlocation
    rw [FileSystem.onBranch, List.any_cons, List.any_nil, Bool.or_false, decide_eq_true_eq,
      hstandalone.canonical_location hfs] at hlocation
    rw [← hlocation]
    exact hbranch
  rw [hstandalone.resolveTree hfs hsource clock']
  exact Aggregation.subtree_move hcollect hdeadline clock' hsubtree hwithin

/-! ## A module next to its aggregator -/

def twoFiles : FileSystem :=
  ⟨[(["a.json"], .file []), (["b.json"], .file [])], []⟩

/-- A format in which the name of the file decides what is read: an aggregator, or its module, which
refers back to it. -/
def twoFilesFormat : Format where
  name := "two files"
  extensions := ["json"]
  read := fun _ path _ ↦ .ok (.mapping
    (if path = "/a.json" then
      [("artifactId", .string "a"), ("packaging", .string "pom"),
        ("modules", .sequence [.string "b.json"])]
    else
      [("artifactId", .string "b"), ("parent", .mapping [("artifactId", .string "a"),
        ("relativePath", .string "a.json")])]))

def twoFilesEngine : Engine :=
  ⟨[twoFilesFormat], .relativePath, .ofMode .collectAll⟩

def upperFile : Descriptor :=
  { (default : Descriptor) with
    artifactId := "a", packaging := .pom, modules := ["b.json"], location := "/a.json" }

def lowerFile : Descriptor :=
  { (default : Descriptor) with
    artifactId := "b", parentRef := some ⟨none, "a", none, some "a.json"⟩, location := "/b.json" }

def upperProject : Project :=
  { (default : Project) with
    declared := upperFile, artifactId := "a", packaging := .pom, modules := ["b.json"]
    location := "/a.json" }

def lowerProject : Project :=
  { (default : Project) with
    declared := lowerFile, artifactId := "b", ancestors := [upperProject]
    location := "/b.json" }

theorem resolve?_twoFiles {name path : String} (hname : name = "a.json" ∨ name = "b.json")
    (hpath : path = Place.path [name]) : twoFiles.resolve? path = some [name] := by
  have hentry : FileSystem.IsEntryName name := by
    rcases hname with rfl | rfl <;> decide +kernel
  have hnode : twoFiles.node? ([] ++ [name]) = some (.file []) := by
    rcases hname with rfl | rfl <;> rfl
  have hdirect : twoFiles.IsDirect ([] ++ [name]) := by
    refine (FileSystem.isDirect_root twoFiles).entry rfl hentry ?_ ?_
    · rw [hnode]
      exact Option.some_ne_none _
    · intro target htarget
      rw [hnode] at htarget
      cases htarget
  rw [hpath]
  apply FileSystem.resolve_path hdirect
  rcases hname with rfl | rfl <;> decide +kernel

theorem resolve?_paths : twoFiles.resolve? "/a.json" = some ["a.json"] ∧
    twoFiles.resolve? "/b.json" = some ["b.json"] := by
  constructor
  · exact resolve?_twoFiles (.inl rfl) (by decide +kernel)
  · exact resolve?_twoFiles (.inr rfl) (by decide +kernel)

theorem isFile_twoFiles : twoFiles.isFile "/a.json" = true ∧ twoFiles.isFile "/b.json" = true := by
  obtain ⟨hupper, hlower⟩ := resolve?_paths
  rw [FileSystem.isFile, FileSystem.isFile, FileSystem.content?, FileSystem.content?, hupper,
    hlower]
  exact ⟨rfl, rfl⟩

theorem canonical?_twoFiles : twoFiles.canonical? "/a.json" = some "/a.json" ∧
    twoFiles.canonical? "/b.json" = some "/b.json" := by
  obtain ⟨hupper, hlower⟩ := resolve?_paths
  rw [FileSystem.canonical?, FileSystem.canonical?, hupper, hlower]
  constructor <;> decide +kernel

theorem readText?_twoFiles : twoFiles.readText? "/a.json" = some "" ∧
    twoFiles.readText? "/b.json" = some "" := by
  obtain ⟨hupper, hlower⟩ := resolve?_paths
  rw [FileSystem.readText?, FileSystem.readText?, FileSystem.content?, FileSystem.content?, hupper,
    hlower]
  exact ⟨rfl, rfl⟩

theorem designates_twoFiles :
    twoFilesEngine.loader.Designates twoFiles "/a.json" "/a.json" ∧
      twoFilesEngine.loader.Designates twoFiles "/b.json" "/b.json" := by
  rw [Loader.Designates, Loader.Designates, Loader.locate?_of_isFile isFile_twoFiles.1,
    Loader.locate?_of_isFile isFile_twoFiles.2]
  exact canonical?_twoFiles

/-- What is loaded from the two files is what the formats read in them. -/
theorem load_twoFiles (engine : Engine) :
    engine.load twoFiles "/a.json" = engine.loader.read twoFiles "/a.json" "" ∧
      engine.load twoFiles "/b.json" = engine.loader.read twoFiles "/b.json" "" := by
  obtain ⟨hupper, hlower⟩ := canonical?_twoFiles
  obtain ⟨htext, htext'⟩ := readText?_twoFiles
  exact ⟨Loader.load_of_canonical hupper htext, Loader.load_of_canonical hlower htext'⟩

theorem load_upperFile : twoFilesEngine.load twoFiles "/a.json" = .ok upperFile :=
  (load_twoFiles twoFilesEngine).1

theorem load_lowerFile : twoFilesEngine.load twoFiles "/b.json" = .ok lowerFile :=
  (load_twoFiles twoFilesEngine).2

def upperListing (modules : List String) : Project :=
  { upperProject with modules }

def lowerBelow (modules : List String) : Project :=
  { lowerProject with ancestors := [upperListing modules] }

theorem canonical_twoFiles :
    twoFiles.canonical "/a.json" = "/a.json" ∧ twoFiles.canonical "/b.json" = "/b.json" := by
  obtain ⟨hupper, hlower⟩ := canonical?_twoFiles
  rw [FileSystem.canonical, FileSystem.canonical, hupper, hlower]
  exact ⟨rfl, rfl⟩

/-- No file is at the path with a slash at its end, but it is the path of the upper file. -/
theorem canonical_slash : twoFiles.canonical "/a.json/" = "/a.json" :=
  FileSystem.canonical_of_normal (by decide +kernel) canonical?_twoFiles.1 (by decide +kernel)

/-- The turn of a project to a module whose file is loaded and resolved below it. -/
theorem turn_of_load {upper lower : Project} {branch : List Visit} {siblings : List String}
    {name file : String}
    (hfile : engine.loader.locate? fs (Aggregation.moduleDirectory upper name) = some file)
    (hnew : FileSystem.onBranch branch (fs.canonical file) = false)
    (hload : engine.load fs file = .ok d) (hresolve : engine.resolve d (some upper) = .ok lower)
    (hsiblings : lower.artifactId ∉ siblings) (clock : Clock) :
    Aggregation.turn ⟨fs, engine.loader, engine.config, clock⟩ branch upper siblings name =
      .resolved (fs.canonical file) lower := by
  have hproject : Aggregation.moduleProject ⟨fs, engine.loader, engine.config, clock⟩ upper siblings
      file = .ok lower :=
    Aggregation.moduleProject_eq_ok_iff.2 ⟨bind_eq_ok.2 ⟨d, hload, hresolve⟩, hsiblings⟩
  exact @Aggregation.turn_of_moduleProject ⟨fs, engine.loader, engine.config, clock⟩ _ _ _ _ _ _
    hfile hnew hproject

/-- The turn of a project in the upper file to the lower file, whatever is read from both. -/
theorem turn_lower {upper lower : Project} (hupper : upper.baseDir = "/")
    (hload : engine.load twoFiles "/b.json" = .ok d)
    (hresolve : engine.resolve d (some upper) = .ok lower) (clock : Clock) :
    Aggregation.turn ⟨twoFiles, engine.loader, engine.config, clock⟩ [⟨"/a.json", "a"⟩] upper []
      "b.json" = .resolved "/b.json" lower := by
  have hdirectory : Aggregation.moduleDirectory upper "b.json" = "/b.json" := by
    rw [Aggregation.moduleDirectory, hupper]
    rfl
  have hlocate : engine.loader.locate? twoFiles (Aggregation.moduleDirectory upper "b.json") =
      some "/b.json" := by
    rw [hdirectory]
    exact Loader.locate?_of_isFile isFile_twoFiles.2
  have hcanonical := canonical_twoFiles.2
  have hnew : FileSystem.onBranch [⟨"/a.json", "a"⟩] (twoFiles.canonical "/b.json") = false := by
    rw [hcanonical]
    decide
  have hturn := turn_of_load hlocate hnew hload hresolve List.not_mem_nil clock
  rw [hcanonical] at hturn
  exact hturn

/-- The tree of a root at a known location, from the outcomes of its modules. -/
theorem aggregate_of_entries {location : String} {clock : Clock} {outcomes : List ModuleEntry}
    (hlocation : fs.canonical project.location = location)
    (hmodules : Aggregation.entries ⟨fs, engine.loader, engine.config, clock⟩
      [⟨location, project.artifactId⟩] (.root project.artifactId) project 0 [] project.modules =
        .ok outcomes) :
    engine.aggregate fs clock project =
      .ok (.ofProject (.root project.artifactId) project outcomes) := by
  rw [aggregate, Aggregation.tree, Aggregation.subtree_eq, hlocation]
  exact map_eq_ok.2 ⟨outcomes, hmodules, rfl⟩

/-- The tree of a project in the upper file whose only module is the lower file. -/
theorem aggregate_lower {upper lower : Project} (hupper : upper.baseDir = "/")
    (hartifactId : upper.artifactId = "a") (hlocation : upper.location = "/a.json")
    (hmodules : upper.modules = ["b.json"]) (hlower : lower.modules = [])
    (hload : engine.load twoFiles "/b.json" = .ok d)
    (hresolve : engine.resolve d (some upper) = .ok lower)
    (hdeadline : engine.config.deadline = none) (clock : Clock) :
    engine.aggregate twoFiles clock upper =
      .ok (.ofProject (.root "a") upper [.resolved (.ofProject ⟨["a", "b.json"]⟩ lower [])]) := by
  rw [aggregate, Aggregation.tree, Aggregation.subtree_eq, hmodules, hlocation, hartifactId,
    Aggregation.entries_cons, Aggregation.overdue?_eq_none hdeadline, canonical_twoFiles.1,
    turn_lower hupper hload hresolve]
  simp only [Aggregation.subtree_eq, hlower, Aggregation.entries_nil]
  rfl

theorem turn_twoFiles (clock : Clock) (modules : List String) :
    Aggregation.turn ⟨twoFiles, twoFilesEngine.loader, twoFilesEngine.config, clock⟩
      [⟨"/a.json", "a"⟩] (upperListing modules) [] "b.json" =
        .resolved "/b.json" (lowerBelow modules) := by
  have hbaseDir : (upperListing modules).baseDir = "/" := by
    change upperProject.baseDir = "/"
    rfl
  exact turn_lower hbaseDir load_lowerFile rfl clock

def lowerTree : ProjectTree :=
  .ofProject ⟨["a", "b.json"]⟩ lowerProject []

def upperTree : ProjectTree :=
  .ofProject (.root "a") upperProject [.resolved lowerTree]

theorem aggregate_twoFiles (clock : Clock) :
    twoFilesEngine.aggregate twoFiles clock upperProject = .ok upperTree :=
  aggregate_lower rfl rfl rfl rfl rfl load_lowerFile rfl rfl clock

theorem resolveTree_upperFile (clock : Clock) :
    twoFilesEngine.resolveTree twoFiles clock "/a.json" = .ok upperTree := by
  rw [resolveTree_of_orphan load_upperFile rfl rfl]
  exact aggregate_twoFiles clock

theorem resolveTree_twoFiles :
    twoFilesEngine.resolveTree twoFiles (fun _ _ ↦ 0) "/a.json" = .ok upperTree ∧
      twoFilesEngine.Reaches twoFiles upperTree lowerTree ∧
      twoFilesEngine.resolveTree twoFiles (fun _ _ ↦ 0) "/b.json" =
        .ok (.ofProject (.root "b") lowerProject []) := by
  have hsearch : ParentSource.search twoFiles twoFilesEngine.loader
      twoFilesEngine.config.missingProperty
      [⟨twoFiles.canonical upperFile.location, upperFile.artifactId⟩] upperFile =
      .ok none := by
    rw [ParentSource.search_eq]
    rfl
  have hresolve : twoFilesEngine.resolve upperFile none = .ok upperProject := rfl
  have hroot : twoFilesEngine.resolveTree twoFiles (fun _ _ ↦ 0) "/a.json" =
      .ok upperTree := by
    rw [resolveTree_of_load rfl load_upperFile hsearch hresolve]
    exact aggregate_twoFiles _
  have hattached : twoFilesEngine.Attached twoFiles upperProject lowerProject := by
    intro ref href
    obtain rfl := Option.some.inj href
    refine ⟨by decide, ?_⟩
    have hpath : Path.join lowerProject.baseDir "a.json" = "/a.json" := rfl
    rw [ParentRef.searchPath, Option.getD_some, hpath]
    exact designates_twoFiles.1
  have hreaches : twoFilesEngine.Reaches twoFiles upperTree lowerTree :=
    .step .refl List.mem_cons_self hattached
  have hmodule := resolveTree_of_reaches (by decide +kernel) rfl rfl rfl hroot hreaches
    (fun _ _ ↦ 0)
  rw [lowerTree, ProjectTree.mapPaths_ofProject, ProjectTree.mapEntryPaths_nil] at hmodule
  exact ⟨hroot, hreaches, hmodule⟩

end Engine

/-- Collecting failures in a directory of two files. -/
def Aggregation.besideTwoFiles : Aggregation :=
  ⟨Engine.twoFiles, Engine.twoFilesEngine.loader, Engine.twoFilesEngine.config, fun _ _ ↦ 0⟩

end Reactor

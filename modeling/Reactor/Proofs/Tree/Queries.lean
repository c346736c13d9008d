import Reactor.CommandLine.Run
import Reactor.Proofs.Text.Split
import Reactor.Proofs.Tree.Siblings
import Reactor.Proofs.Tree.Standalone
import Reactor.Proofs.Tree.Walk

/-!
# Queries

A query names a module by the names that lead to it from the root of its tree. At each level it goes
on below the first module that was resolved under the next name. In an aggregated tree there is at
most one, since modules that are listed twice are rejected as duplicates of themselves, so a query
leads to the subtree at the position that it names.
-/

namespace Reactor

@[simp] theorem ModulePath.last?_child (path : ModulePath) (name : String) :
    (path.child name).last? = some name := by
  simp [ModulePath.last?, ModulePath.child]

@[simp] theorem ModulePath.segments_child (path : ModulePath) (name : String) :
    (path.child name).segments = path.segments ++ [name] :=
  rfl

namespace ProjectTree

/-! ## Trees with names -/

/-- A tree in which the position of each module is that of its aggregator with one more name, and in
which the modules that one project resolves have different names. -/
structure IsNamed (tree : ProjectTree) : Prop where
  position : ∀ subtree ∈ tree.walk, ∀ child ∈ subtree.children,
    ∃ name, child.path = subtree.path.child name
  distinct : ∀ subtree ∈ tree.walk, (subtree.children.map (·.path.last?)).Nodup

namespace IsNamed

variable {tree subtree child : ProjectTree} {name : String} {names : List String}

theorem of_mem_walk (h : tree.IsNamed) (hsubtree : subtree ∈ tree.walk) : subtree.IsNamed where
  position inner hinner := h.position inner (mem_walk_trans hsubtree hinner)
  distinct inner hinner := h.distinct inner (mem_walk_trans hsubtree hinner)

theorem of_mem_children (h : tree.IsNamed) (hchild : child ∈ tree.children) : child.IsNamed :=
  h.of_mem_walk (mem_walk_iff.2 (.inr ⟨child, hchild, child.self_mem_walk⟩))

theorem exists_segments (h : tree.IsNamed) (hsubtree : subtree ∈ tree.walk) :
    ∃ names, subtree.path.segments = tree.path.segments ++ names := by
  suffices hall : ∀ subtree ∈ tree.walk, subtree ∈ tree.walk ∧
      ∃ names, subtree.path.segments = tree.path.segments ++ names from
    (hall subtree hsubtree).2
  apply forall_mem_walk
  · rintro parent ⟨hparent, names, hnames⟩ child hchild
    obtain ⟨name, hname⟩ := h.position parent hparent child hchild
    refine ⟨mem_walk_trans hparent ?_, names ++ [name], ?_⟩
    · exact mem_walk_iff.2 (.inr ⟨child, hchild, child.self_mem_walk⟩)
    · rw [hname, ModulePath.segments_child, hnames, List.append_assoc]
  · exact ⟨tree.self_mem_walk, [], (List.append_nil _).symm⟩

/-- The child that a name leads to is the one at the position with that name. -/
theorem child?_eq_some_iff (h : tree.IsNamed) :
    tree.child? name = some child ↔ child ∈ tree.children ∧ child.path = tree.path.child name := by
  constructor
  · intro hfound
    have hchild : child ∈ tree.children := List.mem_of_find?_eq_some hfound
    have hlast : child.path.last? = some name := by simpa using List.find?_some hfound
    obtain ⟨other, hother⟩ := h.position tree tree.self_mem_walk child hchild
    rw [hother, ModulePath.last?_child] at hlast
    exact ⟨hchild, Option.some.inj hlast ▸ hother⟩
  · rintro ⟨hchild, hpath⟩
    have hlast : child.path.last? = some name := by rw [hpath, ModulePath.last?_child]
    have hsome : (tree.child? name).isSome := by
      rw [child?, List.find?_isSome]
      exact ⟨child, hchild, by simpa using hlast⟩
    obtain ⟨found, hfound⟩ := Option.isSome_iff_exists.1 hsome
    have hsame : found.path.last? = some name := by simpa using List.find?_some hfound
    have heq : found = child :=
      List.inj_on_of_nodup_map (h.distinct tree tree.self_mem_walk)
        (List.mem_of_find?_eq_some hfound) hchild (hsame.trans hlast.symm)
    rw [hfound, heq]

/-- Names lead to the subtree whose position they add to that of the tree. -/
theorem foldlM_child?_eq_some_iff (h : tree.IsNamed) :
    names.foldlM child? tree = some subtree ↔
      subtree ∈ tree.walk ∧ subtree.path.segments = tree.path.segments ++ names := by
  induction names generalizing tree with
  | nil =>
    rw [List.foldlM_nil, List.append_nil]
    constructor
    · intro hself
      obtain rfl := Option.some.inj hself
      exact ⟨tree.self_mem_walk, rfl⟩
    · rintro ⟨hsubtree, hsegments⟩
      rcases mem_walk_iff.1 hsubtree with rfl | ⟨child, hchild, hbelow⟩
      · rfl
      · obtain ⟨name, hname⟩ := h.position tree tree.self_mem_walk child hchild
        obtain ⟨names, hnames⟩ := (h.of_mem_children hchild).exists_segments hbelow
        rw [hname, ModulePath.segments_child, hsegments] at hnames
        simp at hnames
  | cons name rest ih =>
    rw [List.foldlM_cons, Option.bind_eq_bind, Option.bind_eq_some_iff]
    constructor
    · rintro ⟨child, hfound, hrest⟩
      obtain ⟨hchild, hpath⟩ := h.child?_eq_some_iff.1 hfound
      obtain ⟨hsubtree, hsegments⟩ := (ih (h.of_mem_children hchild)).1 hrest
      refine ⟨mem_walk_iff.2 (.inr ⟨child, hchild, hsubtree⟩), ?_⟩
      rw [hsegments, hpath, ModulePath.segments_child, List.append_assoc, List.singleton_append]
    · rintro ⟨hsubtree, hsegments⟩
      rcases mem_walk_iff.1 hsubtree with rfl | ⟨child, hchild, hbelow⟩
      · simp at hsegments
      · obtain ⟨other, hother⟩ := h.position tree tree.self_mem_walk child hchild
        obtain ⟨names, hnames⟩ := (h.of_mem_children hchild).exists_segments hbelow
        have hsame : name = other ∧ rest = names := by
          rw [hsegments, hother, ModulePath.segments_child, List.append_assoc] at hnames
          simpa using hnames
        obtain ⟨rfl, rfl⟩ := hsame
        exact ⟨child, h.child?_eq_some_iff.2 ⟨hchild, hother⟩,
          (ih (h.of_mem_children hchild)).2 ⟨hbelow, hnames⟩⟩

/-- Different subtrees have different positions. -/
theorem eq_of_path_eq {other : ProjectTree} (h : tree.IsNamed) (hsubtree : subtree ∈ tree.walk)
    (hother : other ∈ tree.walk) (hpath : subtree.path = other.path) : subtree = other := by
  obtain ⟨names, hnames⟩ := h.exists_segments hsubtree
  have hfound := h.foldlM_child?_eq_some_iff.2 ⟨hsubtree, hnames⟩
  have hfound' := h.foldlM_child?_eq_some_iff.2 ⟨hother, hpath ▸ hnames⟩
  exact Option.some.inj (hfound.symm.trans hfound')

end IsNamed

end ProjectTree

namespace Aggregation

variable {a : Aggregation} {branch : List Visit} {path : ModulePath} {project : Project}
  {tree child child' : ProjectTree}

/-- Modules that are listed under one name are resolved to one project. -/
theorem project_eq_of_last? (h : a.subtree branch path project = .ok tree)
    (hchild : child ∈ tree.children) (hchild' : child' ∈ tree.children)
    (hname : child.path.last? = child'.path.last?) : child.project = child'.project := by
  obtain ⟨name, siblings, location, hturn, hsubtree⟩ := exists_turn_of_mem_children h hchild
  obtain ⟨name', siblings', location', hturn', hsubtree'⟩ := exists_turn_of_mem_children h hchild'
  obtain ⟨hpath, -⟩ := parts_of_subtree hsubtree
  obtain ⟨hpath', -⟩ := parts_of_subtree hsubtree'
  rw [hpath, hpath', ModulePath.last?_child, ModulePath.last?_child] at hname
  obtain rfl := Option.some.inj hname
  have halone := turn_alone_of_resolved hturn
  rw [turn_alone_of_resolved hturn'] at halone
  exact (Turn.resolved.inj halone).2.symm

theorem isNamed_of_subtree (h : a.subtree branch path project = .ok tree) : tree.IsNamed := by
  have hall := exists_subtree_of_mem_walk h
  refine ⟨fun subtree hsubtree child hchild ↦ ?_, fun subtree hsubtree ↦ ?_⟩
  · obtain ⟨above, habove⟩ := hall subtree hsubtree
    obtain ⟨name, siblings, location, -, hmodule⟩ := exists_turn_of_mem_children habove hchild
    exact ⟨name, (parts_of_subtree hmodule).1⟩
  · obtain ⟨above, habove⟩ := hall subtree hsubtree
    have hids := (isComplete_of_subtree habove).modules.artifactIds
    rw [List.Nodup, List.pairwise_map] at hids ⊢
    apply hids.imp_of_mem
    intro child child' hchild hchild' hne hname
    exact hne (congrArg (·.artifactId) (project_eq_of_last? habove hchild hchild' hname))

end Aggregation

/-! ## Queries for positions -/

/-- A name that a query can hold: it is not empty, and there is no slash in it. -/
def IsQueryName (name : String) : Prop :=
  name ≠ "" ∧ '/' ∉ name.toList

instance (name : String) : Decidable (IsQueryName name) :=
  inferInstanceAs (Decidable (_ ∧ _))

theorem ProjectTree.isQueryName_of_mem {name query : String} (h : name ∈ queryNames query) :
    IsQueryName name := by
  obtain ⟨hpart, hne⟩ := List.mem_filter.1 h
  exact ⟨by simpa using hne, Text.notMem_split hpart⟩

/-- Joined by slashes, names are the names of the query if a query can hold each of them. -/
theorem ProjectTree.queryNames_intercalate_iff {names : List String} :
    queryNames (String.intercalate "/" names) = names ↔ ∀ name ∈ names, IsQueryName name := by
  constructor
  · intro hnames name hname
    exact isQueryName_of_mem (hnames ▸ hname)
  · intro h
    have hkept : names.filter (fun name ↦ ¬name.isEmpty) = names := by
      apply List.filter_eq_self.2
      intro name hname
      simpa using (h name hname).1
    cases names with
    | nil => rfl
    | cons first rest =>
      have hsplit : Text.split '/' (String.intercalate "/" (first :: rest)) = first :: rest :=
        Text.split_eq_iff.2 ⟨rfl, by simp, fun name hname ↦ (h name hname).2⟩
      rw [queryNames, hsplit, hkept]

namespace Engine

variable {engine : Engine} {fs : FileSystem} {clock : Clock} {path : String}
  {tree subtree : ProjectTree}

theorem exists_aggregate_of_resolveTree (h : engine.resolveTree fs clock path = .ok tree) :
    ∃ project, engine.aggregate fs clock project = .ok tree := by
  rw [resolveTree_eq_locateParent] at h
  obtain ⟨d, -, h⟩ := bind_eq_ok.1 h
  obtain ⟨parent, -, h⟩ := bind_eq_ok.1 h
  obtain ⟨project, -, htree⟩ := bind_eq_ok.1 h
  exact ⟨project, htree⟩

/-- A resolved tree starts at the position of its root, and its modules have names. -/
theorem isNamed_of_resolveTree (h : engine.resolveTree fs clock path = .ok tree) :
    tree.IsNamed ∧ tree.path = .root tree.project.artifactId := by
  obtain ⟨project, htree⟩ := exists_aggregate_of_resolveTree h
  obtain ⟨hpath, hproject⟩ := Aggregation.parts_of_subtree htree
  exact ⟨Aggregation.isNamed_of_subtree htree, hproject ▸ hpath⟩

/-- A query leads to the subtree whose names below the root it holds. -/
theorem find?_eq_some_iff (h : engine.resolveTree fs clock path = .ok tree) {query : String} :
    tree.find? query = some subtree ↔
      subtree ∈ tree.walk ∧ subtree.path.segments.tail = ProjectTree.queryNames query := by
  obtain ⟨hnamed, hpath⟩ := isNamed_of_resolveTree h
  rw [ProjectTree.find?, hnamed.foldlM_child?_eq_some_iff]
  apply and_congr_right
  intro hsubtree
  obtain ⟨names, hnames⟩ := hnamed.exists_segments hsubtree
  rw [hnames, hpath]
  simp [ModulePath.root]

/-- A resolved module can be addressed, and its effective project shown, by the names that lead to
it, joined by slashes, if and only if none of them is empty or holds a slash. -/
theorem find?_of_mem_walk (h : engine.resolveTree fs clock path = .ok tree)
    (hsubtree : subtree ∈ tree.walk) :
    (tree.find? (String.intercalate "/" subtree.path.segments.tail) = some subtree ↔
      ∀ name ∈ subtree.path.segments.tail, IsQueryName name) ∧
    ((∀ name ∈ subtree.path.segments.tail, IsQueryName name) →
      CommandLine.showModule tree (String.intercalate "/" subtree.path.segments.tail) =
        .success (CommandLine.jsonText (CommandLine.effectiveJson subtree).sortKeys)) := by
  have hfound : tree.find? (String.intercalate "/" subtree.path.segments.tail) = some subtree ↔
      ∀ name ∈ subtree.path.segments.tail, IsQueryName name := by
    rw [find?_eq_some_iff h, ← ProjectTree.queryNames_intercalate_iff, and_iff_right hsubtree,
      eq_comm]
  refine ⟨hfound, fun hnames ↦ ?_⟩
  rw [CommandLine.showModule, hfound.2 hnames]

theorem find?_lowerTree :
    twoFilesEngine.resolveTree twoFiles (fun _ _ ↦ 0) "/a.json" = .ok upperTree ∧
      lowerTree ∈ upperTree.walk ∧ IsQueryName "b.json" ∧
      upperTree.find? "b.json" = some lowerTree ∧
      CommandLine.showModule upperTree "b.json" =
        .success (CommandLine.jsonText (CommandLine.effectiveJson lowerTree).sortKeys) := by
  have hroot := resolveTree_upperFile fun _ _ ↦ 0
  have hmodule : lowerTree ∈ upperTree.walk :=
    ProjectTree.mem_walk_iff.2 (.inr ⟨lowerTree, .head _, lowerTree.self_mem_walk⟩)
  have hname : IsQueryName "b.json" := by decide
  have hnames : ∀ name ∈ lowerTree.path.segments.tail, IsQueryName name :=
    List.forall_mem_singleton.2 hname
  obtain ⟨hfound, hshown⟩ := find?_of_mem_walk hroot hmodule
  exact ⟨hroot, hmodule, hname, hfound.2 hnames, hshown hnames⟩

/-! ## A name with a slash, and an empty name -/

/-- A root with a module in a directory below, and with one next to it. -/
def threeFiles : FileSystem :=
  ⟨[(["a.json"], .file []), (["project.json"], .file []), (["sub"], .directory),
    (["sub", "b.json"], .file [])], []⟩

/-- A format for these files. The root names its first module by a path of two steps, and its second
one, which stands in the directory of the root, by a property with an empty value. -/
def threeFilesFormat : Format where
  name := "three files"
  extensions := ["json"]
  read := fun _ path _ ↦ .ok (.mapping
    (if path = "/a.json" then
      [("artifactId", .string "a"), ("packaging", .string "pom"),
        ("properties", .mapping [("here", .string "")]),
        ("modules", .sequence [.string "sub/b.json", .string "$\x7bhere\x7d"])]
    else if path = "/sub/b.json" then [("artifactId", .string "b")]
    else [("artifactId", .string "c")]))

def threeFilesEngine : Engine :=
  ⟨[threeFilesFormat], .relativePath, .ofMode .collectAll⟩

def wideRoot : Project :=
  { (default : Project) with
    declared :=
      { (default : Descriptor) with
        artifactId := "a", packaging := .pom, properties := SortedMap.ofList [("here", "")]
        modules := ["sub/b.json", "$\x7bhere\x7d"], location := "/a.json" }
    artifactId := "a", packaging := .pom, modules := ["sub/b.json", ""]
    effectiveProperties := SortedMap.ofList [("here", "")], location := "/a.json" }

def wideModule (artifactId location : String) : Project :=
  { (default : Project) with
    declared := { (default : Descriptor) with artifactId, location }
    artifactId, location }

def widePathTree : ProjectTree :=
  .ofProject ⟨["a", "sub/b.json"]⟩ (wideModule "b" "/sub/b.json") []

def wideNamelessTree : ProjectTree :=
  .ofProject ⟨["a", ""]⟩ (wideModule "c" "/project.json") []

def wideTree : ProjectTree :=
  .ofProject (.root "a") wideRoot [.resolved widePathTree, .resolved wideNamelessTree]

/-- What can be read at the paths of the three files. -/
theorem reading_threeFiles {path : String}
    (h : path = "/a.json" ∨ path = "/sub/b.json" ∨ path = "/project.json") :
    threeFiles.isFile path = true ∧ threeFiles.canonical? path = some path ∧
      threeFiles.readText? path = some "" := by
  obtain ⟨place, hpath, hnode, hnamed, hshort⟩ : ∃ place : Place, place.path = path ∧
      threeFiles.node? place = some (.file []) ∧ (∀ name ∈ place, FileSystem.IsEntryName name) ∧
        place.path.utf8ByteSize ≤ FileSystem.maxPathBytes := by
    rcases h with rfl | rfl | rfl
    · exact ⟨["a.json"], by decide +kernel, rfl, by decide +kernel, by decide +kernel⟩
    · exact ⟨["sub", "b.json"], by decide +kernel, rfl, by decide +kernel, by decide +kernel⟩
    · exact ⟨["project.json"], by decide +kernel, rfl, by decide +kernel, by decide +kernel⟩
  have hplace : threeFiles.resolve? path = some place :=
    hpath ▸ FileSystem.resolve?_file (by decide +kernel) hnode hnamed hshort
  have hcontent : threeFiles.content? path = some [] := by
    rw [FileSystem.content?, hplace, Option.bind_some, hnode]
  refine ⟨?_, ?_, ?_⟩
  · rw [FileSystem.isFile, hcontent, Option.isSome_some]
  · rw [FileSystem.canonical?, hplace, Option.map_some, hpath]
  · rw [FileSystem.readText?, hcontent]
    rfl

theorem load_threeFiles {path : String}
    (h : path = "/a.json" ∨ path = "/sub/b.json" ∨ path = "/project.json") :
    threeFilesEngine.load threeFiles path = threeFilesEngine.loader.read threeFiles path "" := by
  obtain ⟨-, hcanonical, htext⟩ := reading_threeFiles h
  exact Loader.load_of_canonical hcanonical htext

theorem canonical_threeFiles {path : String}
    (h : path = "/a.json" ∨ path = "/sub/b.json" ∨ path = "/project.json") :
    threeFiles.canonical path = path := by
  rw [FileSystem.canonical, (reading_threeFiles h).2.1, Option.getD_some]

/-- The directory of the root is searched for the descriptor of the module without a name. -/
theorem locate?_threeFiles : threeFilesEngine.loader.locate? threeFiles "/" =
    some "/project.json" := by
  have hroot : threeFiles.resolve? "/" = some [] :=
    FileSystem.resolve_path (FileSystem.isDirect_root threeFiles) (by decide +kernel)
  have hfile : threeFiles.isFile "/" = false := by
    rw [FileSystem.isFile, FileSystem.content?, hroot]
    rfl
  have hdirectory : threeFiles.isDirectory "/" = true := by
    rw [FileSystem.isDirectory, hroot]
    rfl
  have hcandidates : Format.candidates threeFilesEngine.formats "/" = ["/project.json"] := rfl
  rw [Loader.locate?, Format.locate?, if_neg (by simp [hfile]), if_pos hdirectory]
  have hfound := (reading_threeFiles (.inr (.inr rfl))).1
  exact hcandidates ▸ List.find?_cons_of_pos hfound

def besideThreeFiles (clock : Clock) : Aggregation :=
  ⟨threeFiles, threeFilesEngine.loader, threeFilesEngine.config, clock⟩

theorem turn_threeFiles {siblings : List String} {name file artifactId : String}
    (hfile : threeFilesEngine.loader.locate? threeFiles
      (Aggregation.moduleDirectory wideRoot name) = some file)
    (hpath : file = "/sub/b.json" ∨ file = "/project.json")
    (hload : threeFilesEngine.load threeFiles file = .ok (wideModule artifactId file).declared)
    (hresolve : threeFilesEngine.resolve (wideModule artifactId file).declared (some wideRoot) =
      .ok (wideModule artifactId file))
    (hsiblings : artifactId ∉ siblings) (clock : Clock) :
    (besideThreeFiles clock).turn [⟨"/a.json", "a"⟩] wideRoot siblings name =
      .resolved file (wideModule artifactId file) := by
  have hcanonical : threeFiles.canonical file = file := canonical_threeFiles (.inr hpath)
  have hnew : FileSystem.onBranch [⟨"/a.json", "a"⟩] (threeFiles.canonical file) = false := by
    rw [hcanonical]
    rcases hpath with rfl | rfl <;> decide
  have hturn := turn_of_load hfile hnew hload hresolve hsiblings clock
  rw [hcanonical] at hturn
  exact hturn

theorem turns_threeFiles (clock : Clock) :
    (besideThreeFiles clock).turn [⟨"/a.json", "a"⟩] wideRoot [] "sub/b.json" =
        .resolved "/sub/b.json" (wideModule "b" "/sub/b.json") ∧
      (besideThreeFiles clock).turn [⟨"/a.json", "a"⟩] wideRoot ["b"] "" =
        .resolved "/project.json" (wideModule "c" "/project.json") := by
  have hfile := (reading_threeFiles (.inr (.inl rfl))).1
  have hfirst : threeFilesEngine.load threeFiles "/sub/b.json" =
      .ok (wideModule "b" "/sub/b.json").declared := load_threeFiles (.inr (.inl rfl))
  have hsecond : threeFilesEngine.load threeFiles "/project.json" =
      .ok (wideModule "c" "/project.json").declared := load_threeFiles (.inr (.inr rfl))
  constructor
  · exact @turn_threeFiles [] "sub/b.json" "/sub/b.json" "b" (Loader.locate?_of_isFile hfile)
      (.inl rfl) hfirst rfl List.not_mem_nil clock
  · exact @turn_threeFiles ["b"] "" "/project.json" "c" locate?_threeFiles (.inr rfl) hsecond rfl
      (by decide) clock

theorem entries_threeFiles (clock : Clock) :
    (besideThreeFiles clock).entries [⟨"/a.json", "a"⟩] (.root "a") wideRoot 0 []
      ["sub/b.json", ""] = .ok [.resolved widePathTree, .resolved wideNamelessTree] := by
  obtain ⟨hfirst, hsecond⟩ := turns_threeFiles clock
  have hrest : (besideThreeFiles clock).entries [⟨"/a.json", "a"⟩] (.root "a") wideRoot 1 ["b"]
      [""] = .ok [.resolved wideNamelessTree] :=
    Aggregation.entries_cons_of_leaf rfl hsecond rfl rfl (Aggregation.entries_nil _ _ _ _ _ _)
  exact Aggregation.entries_cons_of_leaf rfl hfirst rfl rfl hrest

theorem resolveTree_threeFiles (clock : Clock) :
    threeFilesEngine.resolveTree threeFiles clock "/a.json" = .ok wideTree := by
  have hload : threeFilesEngine.load threeFiles "/a.json" = .ok wideRoot.declared :=
    load_threeFiles (.inl rfl)
  have hresolve : threeFilesEngine.resolve wideRoot.declared none = .ok wideRoot := rfl
  have hlocation : threeFiles.canonical wideRoot.location = "/a.json" :=
    canonical_threeFiles (.inl rfl)
  rw [resolveTree_of_orphan hload rfl hresolve]
  exact aggregate_of_entries hlocation (entries_threeFiles clock)

/-- Neither module is found: the query of the first one is taken for two names, and the query of the
second one leads to the root. -/
theorem find?_threeFiles :
    threeFilesEngine.resolveTree threeFiles (fun _ _ ↦ 0) "/a.json" = .ok wideTree ∧
      widePathTree ∈ wideTree.walk ∧ wideNamelessTree ∈ wideTree.walk ∧
      wideTree.find? (String.intercalate "/" widePathTree.path.segments.tail) = none ∧
      wideTree.find? (String.intercalate "/" wideNamelessTree.path.segments.tail) =
        some wideTree ∧
      wideTree ≠ wideNamelessTree := by
  have hwalk : ∀ child ∈ wideTree.children, child ∈ wideTree.walk := fun child hchild ↦
    ProjectTree.mem_walk_iff.2 (.inr ⟨child, hchild, child.self_mem_walk⟩)
  refine ⟨resolveTree_threeFiles _, hwalk _ (.head _), hwalk _ (.tail _ (.head _)), rfl, rfl, ?_⟩
  intro heq
  have hpath := congrArg ProjectTree.path heq
  exact absurd hpath (by decide)

end Engine

end Reactor

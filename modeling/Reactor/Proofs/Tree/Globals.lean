import Reactor.Proofs.Descriptor.Globals
import Reactor.Proofs.LocalFailures
import Reactor.Proofs.Project.EffectiveProperties
import Reactor.Proofs.Tree.Invariant
import Reactor.Proofs.Tree.LocatedParent
import Reactor.Proofs.Tree.MissingProperties

/-!
# Global properties in a tree

Only descriptors without a parent are given the global properties. They reach every project all the
same, since every chain of ancestors, whether it was found on disk or built up by aggregation,
consists of descriptors that the same loader read, and ends in one without a parent. So no reference
to a global property is ever missing.
-/

namespace Reactor

namespace Failure

/-- A failure that misses none of the global properties. -/
def Spares (globals : SortedMap String) (failure : Failure) : Prop :=
  ∀ project name, failure.rootCause = .undefinedProperty project name → globals.get? name = none

variable {globals : SortedMap String}

theorem spares_undefinedProperty_iff {project name : String} :
    (undefinedProperty project name).Spares globals ↔ globals.get? name = none := by
  simp [Spares, rootCause]

theorem spares_module_iff {path : ModulePath} {cause : Failure} :
    (module path cause).Spares globals ↔ cause.Spares globals :=
  Iff.rfl

@[simp] theorem spares_notFound (path : String) : (notFound path).Spares globals := by
  simp [Spares, rootCause]

@[simp] theorem spares_malformed (path : String) (fault : Fault) :
    (malformed path fault).Spares globals := by
  simp [Spares, rootCause]

@[simp] theorem spares_cyclic (chain : List String) : (cyclic chain).Spares globals := by
  simp [Spares, rootCause]

@[simp] theorem spares_unresolvedParent (project : String) (ref : ParentRef) :
    (unresolvedParent project ref).Spares globals := by
  simp [Spares, rootCause]

@[simp] theorem spares_timeout (path : ModulePath) (elapsed : Nanoseconds) :
    (timeout path elapsed).Spares globals := by
  simp [Spares, rootCause]

end Failure

namespace Engine

variable {engine : Engine} {fs : FileSystem} {path : String} {d : Descriptor}
  {supplied : Option Project} {project scope parent : Project}

/-! ## Chains of loaded descriptors -/

/-- A project whose levels are all loaded by an engine, and whose chain of ancestors ends in a level
that refers to no parent. -/
inductive Sourced (engine : Engine) (fs : FileSystem) : Project → Prop
  | root {project : Project} {path : String} (hload : engine.load fs path = .ok project.declared)
    (href : project.declared.parentRef = none) (hancestors : project.ancestors = []) :
    Sourced engine fs project
  | child {project nearest : Project} {path : String} {ref : ParentRef}
    (hload : engine.load fs path = .ok project.declared)
    (href : project.declared.parentRef = some ref) (hnearest : Sourced engine fs nearest)
    (hancestors : project.ancestors = nearest.levels) : Sourced engine fs project

theorem Sourced.of_isScope (h : engine.Sourced fs project) (hscope : project.IsScope scope) :
    engine.Sourced fs scope := by
  obtain ⟨hdeclared, hancestors⟩ := hscope
  cases h with
  | root hload href hnil =>
    exact .root (hdeclared ▸ hload) (hdeclared ▸ href) (hancestors.trans hnil)
  | child hload href hnearest hlevels =>
    exact .child (hdeclared ▸ hload) (hdeclared ▸ href) hnearest (hancestors.trans hlevels)

theorem Sourced.exists_load (h : engine.Sourced fs project) :
    ∀ level ∈ project.selfAndAncestors, ∃ path, engine.load fs path = .ok level.declared := by
  induction h with
  | root hload href hnil =>
    intro level hlevel
    rw [Project.selfAndAncestors, hnil, List.reverse_nil, List.mem_singleton] at hlevel
    exact ⟨_, hlevel ▸ hload⟩
  | child hload href hnearest hlevels ih =>
    intro level hlevel
    rw [Project.selfAndAncestors_of_ancestors hlevels] at hlevel
    rcases List.mem_cons.1 hlevel with rfl | hlevel
    · exact ⟨_, hload⟩
    · exact ih level hlevel

/-- Every level of the chain has such a chain of its own, which is the initial part up to it. -/
theorem Sourced.of_initial (h : engine.Sourced fs project) {before : List Project}
    {ancestor : Project} (hinitial : before ++ [ancestor] <+: project.levels) :
    engine.Sourced fs ancestor ∧ ancestor.ancestors = before := by
  induction h generalizing before ancestor with
  | root hload href hnil =>
    rcases Project.initial_levels_iff.1 hinitial with ⟨rfl, rfl⟩ | hinitial
    · exact ⟨.root hload href hnil, rfl⟩
    · rw [hnil, List.prefix_nil] at hinitial
      simp at hinitial
  | child hload href hnearest hlevels ih =>
    rcases Project.initial_levels_iff.1 hinitial with ⟨rfl, rfl⟩ | hinitial
    · exact ⟨.child hload href hnearest hlevels, rfl⟩
    · rw [hlevels] at hinitial
      exact ih hinitial

/-- A loaded descriptor extends the chain of the supplied parent, up to the level that it refers
to, or starts a new chain. -/
theorem sourced_of_ancestorsOf (hload : engine.load fs path = .ok project.declared)
    (hsupplied : ∀ parent, supplied = some parent → engine.Sourced fs parent)
    (h : Project.ancestorsOf project.declared supplied = .ok project.ancestors) :
    engine.Sourced fs project := by
  rcases Project.ancestorsOf_eq_ok h with ⟨href, hnil⟩ |
    ⟨ref, parent, before, nearest, href, hparent, hancestors, -, hinitial⟩
  · exact .root hload href hnil
  · obtain ⟨hnearest, rfl⟩ := (hsupplied parent hparent).of_initial hinitial
    exact .child hload href hnearest hancestors

theorem sourced_of_inherit (hload : engine.load fs path = .ok d)
    (hsupplied : ∀ parent, supplied = some parent → engine.Sourced fs parent)
    (h : Project.inherit d supplied = .ok project) : engine.Sourced fs project := by
  obtain ⟨chain, hchain, -, rfl⟩ := Project.inherit_eq_ok_iff.1 h
  exact sourced_of_ancestorsOf hload hsupplied hchain

theorem sourced_of_resolve (hload : engine.load fs path = .ok d)
    (hsupplied : ∀ parent, supplied = some parent → engine.Sourced fs parent)
    (h : engine.resolve d supplied = .ok project) : engine.Sourced fs project := by
  obtain rfl := Project.declared_of_resolve h
  exact sourced_of_ancestorsOf hload hsupplied (Project.ancestorsOf_of_resolve h)

/-! ## Looking up a global property -/

/-- The text of the nearest declaration of a property, among those that are written in the files of
a project and its ancestors. -/
def writtenProperty? (engine : Engine) (fs : FileSystem) (project : Project) (name : String) :
    Option String :=
  project.selfAndAncestors.findSome? fun level ↦
    (engine.loader.written? fs level.declared.location).bind (·.properties.get? name)

/-- The descriptor of every level is the one that is written in its file, with the global
properties if it refers to no parent. -/
theorem Sourced.exists_written (h : engine.Sourced fs project) :
    ∀ level ∈ project.selfAndAncestors,
      ∃ written, engine.loader.written? fs level.declared.location = some written ∧
        level.declared = written.withGlobals engine.config.globals := by
  intro level hlevel
  obtain ⟨path, hload⟩ := h.exists_load level hlevel
  exact Loader.exists_written_of_load hload

/-- A property means what the files of the levels say, and otherwise what it means globally. -/
theorem Sourced.declaredProperty?_eq (h : engine.Sourced fs project) (name : String) :
    project.declaredProperty? name =
      (engine.writtenProperty? fs project name).or (engine.config.globals.get? name) := by
  unfold Project.declaredProperty? writtenProperty?
  induction h with
  | @root project path hload href hnil =>
    obtain ⟨written, hwritten, hdeclared⟩ := Loader.exists_written_of_load hload
    have hroot : written.parentRef = none := by
      rw [hdeclared] at href
      exact href
    rw [Project.selfAndAncestors, hnil]
    simp only [List.reverse_nil, List.findSome?_singleton, hwritten, Option.bind_some]
    rw [hdeclared, Descriptor.get?_properties_withGlobals hroot]
    rfl
  | @child project nearest path ref hload href hnearest hlevels ih =>
    obtain ⟨written, hwritten, hdeclared⟩ := Loader.exists_written_of_load hload
    have hbelow : written.parentRef = some ref := by
      rw [hdeclared] at href
      exact href
    have hsame : project.declared = written := by
      rw [hdeclared, Descriptor.withGlobals_of_some hbelow]
    rw [Project.selfAndAncestors_of_ancestors hlevels, List.findSome?_cons, List.findSome?_cons,
      ih, hwritten, Option.bind_some, hsame]
    cases written.properties.get? name <;> rfl

theorem Sourced.globals_get?_eq_none (h : engine.Sourced fs project) {name : String}
    (hname : project.lookup name = none) : engine.config.globals.get? name = none := by
  have hundeclared : project.declaredProperty? name = none := (Option.or_eq_none_iff.1 hname).1
  rw [h.declaredProperty?_eq] at hundeclared
  exact (Option.or_eq_none_iff.1 hundeclared).2

/-! ## Failures -/

theorem failsOnly_spares_load (path : String) :
    FailsOnly (Failure.Spares engine.config.globals) (engine.load fs path) :=
  Loader.failsOnly_load Failure.spares_malformed Failure.spares_notFound path

/-- A loaded descriptor whose ancestors were loaded, too, misses no global property. -/
theorem failsOnly_spares_resolve (hload : engine.load fs path = .ok d)
    (hsupplied : ∀ parent, supplied = some parent → engine.Sourced fs parent) :
    FailsOnly (Failure.Spares engine.config.globals) (engine.resolve d supplied) := by
  apply Project.failsOnly_resolve
  · apply Project.failsOnly_inherit
    · intro ref _
      exact Failure.spares_unresolvedParent d.artifactId ref
    · exact Failure.spares_cyclic
  · intro inherited scope hinherited hscope name hname
    have hsourced := sourced_of_inherit hload hsupplied hinherited
    apply Failure.spares_undefinedProperty_iff.2
    exact (hsourced.of_isScope hscope).globals_get?_eq_none hname
  · exact Failure.spares_malformed

/-! ## The parent of the root -/

theorem failsOnly_spares_ascend (visited : List Visit) (d : Descriptor) :
    FailsOnly (Failure.Spares engine.config.globals)
      (ParentSource.ascend fs engine.loader visited d) := by
  unfold ParentSource.ascend
  cases d.parentRef with
  | none => exact .ok none
  | some ref =>
    simp only
    split
    · exact .ok none
    · rename_i hfailure
      exact .error (failsOnly_spares_load _ _ hfailure)
    · split
      · exact .error (Failure.spares_cyclic _)
      · exact .ok _

/-- The projects that a search finds consist of loaded descriptors, and it misses no global
property. -/
theorem sourced_of_search (visited : List Visit) (d : Descriptor) :
    FailsOnly (Failure.Spares engine.config.globals)
        (ParentSource.search fs engine.loader engine.config.missingProperty visited d) ∧
      ∀ parent, ParentSource.search fs engine.loader engine.config.missingProperty visited d =
        .ok (some parent) → engine.Sourced fs parent := by
  induction visited, d using ParentSource.search_induction fs engine.loader with
  | step visited d ih =>
    constructor
    · rw [ParentSource.search_eq_ascend]
      apply (failsOnly_spares_ascend visited d).bind
      intro found hfound
      cases found with
      | none => exact .ok none
      | some found =>
        obtain ⟨ref, candidate⟩ := found
        obtain ⟨href, hload, hnew⟩ := ParentSource.ascend_eq_ok_some hfound
        obtain ⟨hfails, hsourced⟩ := ih candidate ⟨ref, href, hload⟩ hnew
        apply hfails.bind
        intro grandparent hgrandparent
        apply FailsOnly.bind (failsOnly_spares_resolve hload ?_)
        · intro parent _
          exact .ok _
        · rintro above rfl
          exact hsourced above hgrandparent
    · intro parent h
      obtain ⟨ref, grandparent, href, hload, hnew, hsearch, hresolve, -⟩ :=
        ParentSource.search_eq_ok_some h
      obtain ⟨-, hsourced⟩ := ih parent.declared ⟨ref, href, hload⟩ hnew
      apply sourced_of_resolve hload _ hresolve
      rintro above rfl
      exact hsourced above hsearch

theorem sourced_of_locateParent (d : Descriptor) :
    FailsOnly (Failure.Spares engine.config.globals) (engine.locateParent fs d) ∧
      ∀ parent, engine.locateParent fs d = .ok (some parent) → engine.Sourced fs parent := by
  unfold locateParent ParentSource.locate
  cases engine.parentSource with
  | nowhere => exact ⟨.ok none, by simp⟩
  | relativePath => exact sourced_of_search _ d

/-! ## The tree -/

/-- What holds of every project of a tree: it consists of loaded descriptors, and it was
resolved. -/
structure Grounded (engine : Engine) (fs : FileSystem) (project : Project) : Prop where
  sourced : engine.Sourced fs project
  resolved : ∃ d supplied, engine.resolve d supplied = .ok project

/-- Aggregation extends chains by loaded descriptors, and misses no global property. -/
theorem grounded_invariant (clock : Clock) :
    Aggregation.Invariant ⟨fs, engine.loader, engine.config, clock⟩ (engine.Grounded fs)
      (Failure.Spares engine.config.globals) where
  resolved := by
    intro branch project siblings name location child hproject hturn
    obtain ⟨file, -, -, -, hchild⟩ := Aggregation.turn_eq_resolved hturn
    obtain ⟨d, hload, hresolve⟩ := Aggregation.moduleProject_eq_ok hchild
    refine ⟨sourced_of_resolve hload ?_ hresolve, d, some project, hresolve⟩
    intro parent hparent
    exact Option.some.inj hparent ▸ hproject.sourced
  failed := by
    intro branch project siblings name cause hproject hturn path
    apply Failure.spares_module_iff.2
    rcases Aggregation.turn_eq_failed hturn with ⟨missing, rfl⟩ | ⟨file, hfailure⟩
    · exact Failure.spares_notFound missing
    · refine Aggregation.failsOnly_moduleProject Failure.spares_notFound Failure.spares_malformed
        ?_ siblings file cause hfailure
      intro path d hload
      apply failsOnly_spares_resolve hload
      intro parent hparent
      exact Option.some.inj hparent ▸ hproject.sourced
  cyclic := Failure.spares_cyclic
  timeout := Failure.spares_timeout

/-- The effective value of a global property is the expansion of its nearest declaration, or else of
the text that it has globally. -/
theorem Grounded.exists_effectiveProperty (h : engine.Grounded fs project) {name text : String}
    (hglobal : engine.config.globals.get? name = some text) :
    ∃ value, project.effectiveProperties.get? name = some value ∧
      project.ExpandsTo engine.config.missingProperty
        ((engine.writtenProperty? fs project name).getD text) value := by
  obtain ⟨d, supplied, hresolve⟩ := h.resolved
  have heffective := Project.effectiveProperties_of_resolve hresolve
  have hdeclared : project.declaredProperties.get? name =
      some ((engine.writtenProperty? fs project name).getD text) := by
    rw [Project.get?_declaredProperties, h.sourced.declaredProperty?_eq, hglobal]
    cases engine.writtenProperty? fs project name <;> rfl
  have hkey : name ∈ project.effectiveProperties.keys := by
    rw [SortedMap.keys_of_mapM heffective, SortedMap.mem_keys_iff, hdeclared, Option.isSome_some]
  obtain ⟨value, hvalue⟩ := Option.isSome_iff_exists.1 (SortedMap.mem_keys_iff.1 hkey)
  obtain ⟨source, hsource, hexpand⟩ := (SortedMap.get?_of_mapM heffective name value).1 hvalue
  obtain rfl := Option.some.inj (hdeclared.symm.trans hsource)
  exact ⟨value, hvalue, Project.expand_eq_ok_iff_expandsTo.1 hexpand⟩

/-- The root of a tree is resolved below what was found on disk. -/
theorem grounded_of_root (hload : engine.load fs path = .ok d)
    (hparent : engine.locateParent fs d = .ok supplied)
    (hresolve : engine.resolve d supplied = .ok project) : engine.Grounded fs project := by
  refine ⟨sourced_of_resolve hload ?_ hresolve, d, supplied, hresolve⟩
  rintro parent rfl
  exact (sourced_of_locateParent d).2 parent hparent

theorem reports_resolveTree (engine : Engine) (fs : FileSystem) (clock : Clock) (path : String) :
    Aggregation.Reports (Failure.Spares engine.config.globals) ProjectTree.failureList
      (engine.resolveTree fs clock path) := by
  rw [resolveTree_eq_locateParent]
  apply Aggregation.Reports.bind (failsOnly_spares_load path)
  intro d hload
  obtain ⟨hfails, hsourced⟩ := @sourced_of_locateParent engine fs d
  apply Aggregation.Reports.bind hfails
  intro supplied hsupplied
  have hresolve : FailsOnly (Failure.Spares engine.config.globals) (engine.resolve d supplied) := by
    apply failsOnly_spares_resolve hload
    rintro parent rfl
    exact hsourced parent hsupplied
  apply Aggregation.Reports.bind hresolve
  intro project hproject
  exact (grounded_invariant clock).reports_tree (grounded_of_root hload hsupplied hproject)

theorem grounded_of_mem_walk {clock : Clock} {tree : ProjectTree}
    (h : engine.resolveTree fs clock path = .ok tree) :
    ∀ subtree ∈ tree.walk, engine.Grounded fs subtree.project := by
  rw [resolveTree_eq_locateParent] at h
  obtain ⟨d, hload, h⟩ := bind_eq_ok.1 h
  obtain ⟨supplied, hsupplied, h⟩ := bind_eq_ok.1 h
  obtain ⟨project, hproject, htree⟩ := bind_eq_ok.1 h
  exact (grounded_invariant clock).of_mem_walk (grounded_of_root hload hsupplied hproject) htree

/-- Global properties reach every project of a tree, wherever its parent was looked for. Each is a
key of the effective properties, and its value is the expansion, in the scope of the project, of the
nearest declaration that is written in the files of the project and its ancestors, or of the global
text if there is none. Neither a recorded failure nor one that ends the resolution names a global
property as missing. -/
theorem globals_of_resolveTree (engine : Engine) (fs : FileSystem) (clock : Clock)
    (path : String) :
    (∀ tree, engine.resolveTree fs clock path = .ok tree →
      (∀ subtree ∈ tree.walk,
        (∀ level ∈ subtree.project.selfAndAncestors,
          ∃ written, engine.loader.written? fs level.declared.location = some written ∧
            level.declared = written.withGlobals engine.config.globals) ∧
        ∀ name text, engine.config.globals.get? name = some text →
          name ∈ subtree.project.effectiveProperties.keys ∧
          ∃ value, subtree.project.effectiveProperties.get? name = some value ∧
            subtree.project.ExpandsTo engine.config.missingProperty
              ((engine.writtenProperty? fs subtree.project name).getD text) value) ∧
      ∀ failed ∈ tree.failures.failures, failed.failure.Spares engine.config.globals) ∧
    ∀ failure, engine.resolveTree fs clock path = .error failure →
      failure.Spares engine.config.globals := by
  obtain ⟨hends, hrecorded⟩ := reports_resolveTree engine fs clock path
  refine ⟨fun tree htree ↦ ⟨fun subtree hsubtree ↦ ?_, hrecorded tree htree⟩, hends⟩
  have hgrounded := grounded_of_mem_walk htree subtree hsubtree
  refine ⟨hgrounded.sourced.exists_written, fun name text hglobal ↦ ?_⟩
  obtain ⟨value, hvalue, hexpands⟩ := hgrounded.exists_effectiveProperty hglobal
  have hkey : name ∈ subtree.project.effectiveProperties.keys := by
    rw [SortedMap.mem_keys_iff, hvalue, Option.isSome_some]
  exact ⟨hkey, value, hvalue, hexpands⟩

/-- The project of the lower file, which declares no property and refers to a parent, has the
global one. -/
theorem globals_of_namedModule :
    (namedModuleEngine .fail).resolveTree twoFiles (fun _ _ ↦ 0) "/a.json" = .ok namedModuleTree ∧
      .ofProject ⟨["a", "b.json"]⟩ namedProject [] ∈ namedModuleTree.walk ∧
      namedProject.declared.properties.get? "module" = none ∧
      (namedModuleEngine .fail).config.globals.get? "module" = some "b" ∧
      "module" ∈ namedProject.effectiveProperties.keys ∧
      ∃ value, namedProject.effectiveProperties.get? "module" = some value ∧
        namedProject.ExpandsTo .fail
          (((namedModuleEngine .fail).writtenProperty? twoFiles namedProject "module").getD "b")
          value := by
  have htree := resolveTree_namedModule fun _ _ ↦ 0
  have hmem : .ofProject ⟨["a", "b.json"]⟩ namedProject [] ∈ namedModuleTree.walk := by
    rw [ProjectTree.walk, ProjectTree.walkFrom,
      show namedModuleTree.children ++ [] = [.ofProject ⟨["a", "b.json"]⟩ namedProject []] from rfl,
      ProjectTree.walkFrom]
    exact List.mem_cons_of_mem _ List.mem_cons_self
  have hglobal : (namedModuleEngine .fail).config.globals.get? "module" = some "b" := rfl
  obtain ⟨hresolved, -⟩ :=
    globals_of_resolveTree (namedModuleEngine .fail) twoFiles (fun _ _ ↦ 0) "/a.json"
  obtain ⟨hreach, -⟩ := hresolved namedModuleTree htree
  obtain ⟨-, hproperties⟩ := hreach _ hmem
  exact ⟨htree, hmem, rfl, hglobal, hproperties "module" "b" hglobal⟩

end Engine

end Reactor

import Reactor.Proofs.Project.PluginMerge
import Reactor.Proofs.Project.Steps
import Reactor.Proofs.Value.Strings

/-!
# Expanding before and after merging

The plugins of a project are merged first, and the merged options are then expanded in the scope of
the project. Merging decides by ids and keys alone, so it makes no difference to expand the plugins
of every level beforehand, as long as that succeeds. It may fail where the expansion of the merged
plugins does not, since an option that is hidden by a later level is never expanded.
-/

namespace Reactor

/-! ## Merging related configurations -/

namespace PluginConfig

variable {R : Value → Value → Prop} {plugin plugin' base base' top top' : PluginConfig}
  {merged merged' plugins : List PluginConfig}

/-- Whether two configurations are the same but for the values of their options, which are
related. -/
structure Related (R : Value → Value → Prop) (plugin plugin' : PluginConfig) : Prop where
  id : plugin.id = plugin'.id
  options : plugin.options.Related R plugin'.options
  skip : plugin.skip = plugin'.skip

theorem Related.overlay (hbase : Related R base base') (htop : Related R top top') :
    Related R (base.overlay top) (base'.overlay top') where
  id := hbase.id
  options := hbase.options.overlay htop.options
  skip := congrArg₂ Option.or htop.skip hbase.skip

theorem Related.mergeInto (h : Related R plugin plugin')
    (hmerged : List.Forall₂ (Related R) merged merged') :
    List.Forall₂ (Related R) (mergeInto plugin merged) (mergeInto plugin' merged') := by
  induction hmerged with
  | nil => exact .cons h .nil
  | @cons first first' rest rest' hfirst hrest ih =>
    rw [PluginConfig.mergeInto, PluginConfig.mergeInto, hfirst.id, h.id]
    split
    · exact .cons (hfirst.overlay h) hrest
    · exact .cons hfirst ih

/-- Merging does not look at the values of options. -/
theorem forall₂_merge {levels levels' : List (List PluginConfig)}
    (h : List.Forall₂ (List.Forall₂ (Related R)) levels levels') :
    List.Forall₂ (Related R) (merge levels) (merge levels') := by
  have hflatten := List.rel_flatten h
  exact List.rel_foldl (fun _ _ hmerged _ _ hplugin ↦ hplugin.mergeInto hmerged) .nil hflatten

/-- One level without repeated ids is merged already. -/
theorem merge_singleton_of_nodup (h : (ids plugins).Nodup) : merge [plugins] = plugins := by
  rw [merge_eq_accumulate, List.flatten_singleton]
  induction plugins using List.reverseRecOn with
  | nil => rfl
  | append_singleton plugins plugin ih =>
    rw [ids_append] at h
    obtain ⟨hplugins, -, hnew⟩ := List.nodup_append.1 h
    rw [accumulate_append, ih hplugins]
    apply mergeInto_of_notMem
    intro hmem
    exact hnew plugin.id hmem plugin.id List.mem_cons_self rfl

end PluginConfig

/-! ## Expanded plugins -/

namespace Project

variable {policy : MissingProperty} {project scope result : Project}
  {plugin expanded : PluginConfig}

/-- Expanding a plugin expands the values of its options and changes nothing else. -/
theorem expandPlugin_eq_ok_iff : scope.expandPlugin policy plugin = .ok expanded ↔
    plugin.Related (fun value value' ↦ value.mapStringsM (scope.expand policy) = .ok value')
      expanded := by
  unfold expandPlugin
  simp only [bind_eq_ok, SortedMap.mapM_eq_ok_iff, Except.ok.injEq]
  constructor
  · rintro ⟨options, hoptions, rfl⟩
    exact ⟨rfl, hoptions, rfl⟩
  · rintro ⟨hid, hoptions, hskip⟩
    refine ⟨expanded.options, hoptions, ?_⟩
    rw [hid, hskip]

theorem map_shape_of_expandPlugin (h : scope.expandPlugin policy plugin = .ok expanded) :
    expanded.options.map Value.shape = plugin.options.map Value.shape := by
  have hrelated := (expandPlugin_eq_ok_iff.1 h).options
  exact (hrelated.map_eq fun value value' hvalue ↦ (Value.shape_of_mapStringsM hvalue).symm).symm

/-- Plugins that can be expanded level by level may be expanded before or after they are merged. -/
theorem mapM_expandPlugin_merge {levels expanded : List (List PluginConfig)}
    (h : levels.mapM (·.mapM (scope.expandPlugin policy)) = .ok expanded) :
    (PluginConfig.merge levels).mapM (scope.expandPlugin policy) =
      .ok (PluginConfig.merge expanded) := by
  simp only [mapM_eq_ok, expandPlugin_eq_ok_iff] at h ⊢
  exact PluginConfig.forall₂_merge h

/-- The plugins of a project without ancestors are its effective plugins, unless it declares one
twice. -/
theorem applyPlugins_of_substitute {substituted : Project} (hancestors : project.ancestors = [])
    (hnodup : (PluginConfig.ids project.declared.plugins).Nodup)
    (h : project.substitute policy = .ok substituted) :
    substituted.applyPlugins policy =
      .ok { substituted with effectivePlugins := substituted.plugins } := by
  obtain ⟨scope, _, _, plugins, hscope, -, -, hplugins, rfl⟩ := substitute_eq_ok_iff.1 h
  have hmerge : PluginConfig.merge (scope.levels.map (·.declared.plugins)) =
      scope.declared.plugins := by
    obtain ⟨_, _, -, -, rfl⟩ := substituteCoordinates_eq_ok_iff.1 hscope
    simp [levels, hancestors, PluginConfig.merge_singleton_of_nodup hnodup]
  refine applyPlugins_eq_ok_iff.2 ⟨plugins, ?_, rfl⟩
  rw [declaredPlugins_with, hmerge]
  exact hplugins

/-- If the plugins of every level can be expanded, the effective plugins are those that the expanded
ones are merged to. Expansion changes nothing but strings in the values of options. Merging the
plugins of a project again changes nothing, and merging those of a project without ancestors gives
the plugins that it declares. -/
theorem applyPlugins_expanded (project : Project) (policy : MissingProperty) :
    (∀ expanded, project.levels.mapM (fun level ↦
        level.declared.plugins.mapM (project.expandPlugin policy)) = .ok expanded →
      project.applyPlugins policy =
        .ok { project with effectivePlugins := PluginConfig.merge expanded }) ∧
    (∀ plugin expanded, project.expandPlugin policy plugin = .ok expanded →
      expanded.id = plugin.id ∧ expanded.skip = plugin.skip ∧
        expanded.options.keys = plugin.options.keys ∧
        expanded.options.map Value.shape = plugin.options.map Value.shape) ∧
    (∀ applied, project.applyPlugins policy = .ok applied →
      applied = { project with effectivePlugins := applied.effectivePlugins } ∧
        applied.applyPlugins policy = .ok applied) ∧
    (project.ancestors = [] → (PluginConfig.ids project.declared.plugins).Nodup →
      ∀ substituted, project.substitute policy = .ok substituted →
        substituted.applyPlugins policy =
          .ok { substituted with effectivePlugins := substituted.plugins }) := by
  refine ⟨?_, ?_, ?_, ?_⟩
  · intro expanded h
    refine applyPlugins_eq_ok_iff.2 ⟨PluginConfig.merge expanded, ?_, rfl⟩
    apply mapM_expandPlugin_merge
    rw [List.mapM_map]
    exact h
  · intro plugin expanded h
    have hrelated := expandPlugin_eq_ok_iff.1 h
    exact ⟨hrelated.id.symm, hrelated.skip.symm, hrelated.options.keys_eq.symm,
      map_shape_of_expandPlugin h⟩
  · intro applied h
    obtain ⟨effectivePlugins, hplugins, rfl⟩ := applyPlugins_eq_ok_iff.1 h
    refine ⟨rfl, applyPlugins_eq_ok_iff.2 ⟨effectivePlugins, ?_, rfl⟩⟩
    rw [declaredPlugins_with]
    exact hplugins
  · intro hancestors hnodup substituted h
    exact applyPlugins_of_substitute hancestors hnodup h

/-- A project that states the release of its compiler with a property of another project. -/
def toolRoot : Descriptor :=
  { (default : Descriptor) with
    artifactId := "root"
    plugins :=
      [⟨"compiler", SortedMap.ofList [("release", .string "$\x7btarget\x7d"),
          ("target", .string "11")], none⟩,
        ⟨"deploy", ∅, some true⟩]
    location := "/w/project.json" }

/-- A project that declares the property, and more options of the compiler. -/
def toolLeaf : Descriptor :=
  { (default : Descriptor) with
    artifactId := "leaf"
    properties := SortedMap.ofList [("target", "17")]
    plugins :=
      [⟨"compiler", SortedMap.ofList
          [("flags", .sequence [.string "-t", .string "$\x7btarget\x7d"]),
            ("target", .string "$\x7btarget\x7d")], some false⟩]
    location := "/w/leaf/project.json" }

def toolProject : Project :=
  extend toolLeaf [extend toolRoot []]

def toolCompiler : PluginConfig :=
  ⟨"compiler", SortedMap.ofList [("flags", .sequence [.string "-t", .string "17"]),
    ("release", .string "17"), ("target", .string "17")], some false⟩

theorem applyPlugins_toolProject :
    (∃ expanded applied, toolProject.levels.mapM (fun level ↦
        level.declared.plugins.mapM (toolProject.expandPlugin .fail)) = .ok expanded ∧
      PluginConfig.merge expanded = [toolCompiler, ⟨"deploy", ∅, some true⟩] ∧
      toolProject.applyPlugins .fail = .ok applied ∧
      applied.effectivePlugins = PluginConfig.merge expanded ∧
      applied.applyPlugins .fail = .ok applied) ∧
    (∀ plugin ∈ toolRoot.plugins, ∃ expanded,
      toolProject.expandPlugin .fail plugin = .ok expanded ∧
        expanded.options.keys = plugin.options.keys) ∧
    (∃ substituted, (extend toolLeaf []).substitute .fail = .ok substituted ∧
      (extend toolLeaf []).ancestors = [] ∧
      (PluginConfig.ids (extend toolLeaf []).declared.plugins).Nodup ∧
      substituted.applyPlugins .fail =
        .ok { substituted with effectivePlugins := substituted.plugins }) := by
  obtain ⟨hmerge, hexpand, happly, -⟩ := applyPlugins_expanded toolProject .fail
  refine ⟨?_, ?_, ?_⟩
  · have hexpanded : toolProject.levels.mapM (fun level ↦
        level.declared.plugins.mapM (toolProject.expandPlugin .fail)) = .ok _ := rfl
    have happlied := hmerge _ hexpanded
    exact ⟨_, _, hexpanded, rfl, happlied, rfl, (happly _ happlied).2⟩
  · intro plugin hplugin
    simp only [toolRoot, List.mem_cons, List.not_mem_nil, or_false] at hplugin
    rcases hplugin with rfl | rfl
    · exact ⟨_, rfl, (hexpand _ _ rfl).2.2.1⟩
    · exact ⟨_, rfl, (hexpand _ _ rfl).2.2.1⟩
  · have hsubstituted : (extend toolLeaf []).substitute .fail = .ok _ := rfl
    have hnodup : (PluginConfig.ids (extend toolLeaf []).declared.plugins).Nodup := by decide
    exact ⟨_, hsubstituted, rfl, hnodup,
      (applyPlugins_expanded _ .fail).2.2.2 rfl hnodup _ hsubstituted⟩

/-- A project below the first one that hides the release of the compiler. -/
def releaseProject : Project :=
  extend { toolLeaf with
    properties := ∅
    plugins := [⟨"compiler", SortedMap.ofList [("release", .string "21")], none⟩] }
    [extend toolRoot []]

-- The option that is hidden cannot be expanded, since its property is declared nowhere.
example : (releaseProject.applyPlugins .fail).isOk = true ∧
    (releaseProject.levels.mapM fun level : Project ↦
      level.declared.plugins.mapM (releaseProject.expandPlugin .fail)).isOk = false := by
  decide +kernel

end Project

end Reactor

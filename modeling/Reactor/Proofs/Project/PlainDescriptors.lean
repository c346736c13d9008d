import Reactor.Proofs.Placeholder
import Reactor.Proofs.Project.Ancestors
import Reactor.Proofs.Project.PluginTexts

/-!
# Inheriting by descriptors without placeholders

A descriptor inherits texts with placeholders from its ancestors, and expands them again in its own
scope. If its nearest ancestor could expand them, so can the descriptor: every name that the
ancestor can look up can be looked up below it. A descriptor that has no placeholders of its own is
therefore resolved, unless inheritance itself fails.
-/

namespace Reactor

/-- A descriptor whose texts refer to no property. -/
structure Descriptor.IsPlain (d : Descriptor) : Prop where
  groupId : ∀ text ∈ d.groupId, Placeholder.IsPlain text
  version : ∀ text ∈ d.version, Placeholder.IsPlain text
  properties : ∀ entry ∈ d.properties.entries, Placeholder.IsPlain entry.2
  modules : ∀ text ∈ d.modules, Placeholder.IsPlain text
  plugins : ∀ text ∈ d.plugins.flatMap PluginConfig.texts, Placeholder.IsPlain text

namespace Project

variable {policy : MissingProperty} {d : Descriptor} {ref : ParentRef} {supplied : Option Project}
  {parent scope nearest inherited result : Project} {text name : String}

/-- Strict expansion of a text succeeds in a scope. -/
def Expands (scope : Project) (text : String) : Prop :=
  ∃ result, scope.expand .fail text = .ok result

theorem expands_iff :
    scope.Expands text ↔ ∃ result, Placeholder.substitute scope.lookup text = .ok result := by
  unfold Expands expand
  cases Placeholder.substitute scope.lookup text <;> simp [Except.mapError]

theorem expands_of_plain (h : Placeholder.IsPlain text) : scope.Expands text :=
  expands_iff.2 ⟨_, Placeholder.substitute_of_plain h⟩

theorem Expands.failsOnly (h : scope.Expands text) :
    FailsOnly (fun _ ↦ False) (scope.expand .fail text) :=
  failsOnly_false_iff.2 h

theorem Expands.mono (hlookup : ∀ name, (nearest.lookup name).isSome = true →
    (scope.lookup name).isSome = true) (h : nearest.Expands text) : scope.Expands text :=
  expands_iff.2 (Placeholder.exists_substitute_mono hlookup (expands_iff.1 h))

/-! ## What can be looked up below an ancestor -/

theorem parent?_of_ancestors (hancestors : scope.ancestors = nearest.levels) :
    scope.parent? = some nearest := by
  rw [parent?, hancestors, levels, List.getLast?_concat]

/-- How a scope relates to its nearest ancestor: coordinates that the ancestor has are there as
well, and the ancestor itself has a version if its own parent has one. -/
structure Below (scope nearest : Project) : Prop where
  ancestors : scope.ancestors = nearest.levels
  groupId : nearest.groupId.isSome = true → scope.groupId.isSome = true
  version : nearest.version.isSome = true → scope.version.isSome = true
  parentVersion : (nearest.parent?.bind (·.version)).isSome = true →
    nearest.version.isSome = true

theorem Below.declaredProperty? (h : Below scope nearest)
    (hname : (nearest.declaredProperty? name).isSome = true) :
    (scope.declaredProperty? name).isSome = true := by
  unfold Project.declaredProperty? at hname ⊢
  rw [selfAndAncestors_of_ancestors h.ancestors, List.findSome?_cons]
  split
  · rfl
  · exact hname

theorem Below.builtin? (h : Below scope nearest) (hname : (nearest.builtin? name).isSome = true) :
    (scope.builtin? name).isSome = true := by
  unfold Project.builtin? at hname ⊢
  split at hname
  · rfl
  · exact h.groupId hname
  · exact h.version hname
  · rfl
  · rfl
  · rw [parent?_of_ancestors h.ancestors]
    rfl
  · rw [parent?_of_ancestors h.ancestors]
    exact h.parentVersion hname
  · cases hname

/-- Every name that means something in the nearest ancestor means something below it. -/
theorem Below.lookup (h : Below scope nearest) (hname : (nearest.lookup name).isSome = true) :
    (scope.lookup name).isSome = true := by
  unfold Project.lookup at hname ⊢
  rw [Option.isSome_or, Bool.or_eq_true] at hname ⊢
  exact hname.imp h.declaredProperty? h.builtin?

/-! ## What is expanded below an ancestor -/

theorem declaredProperties_of_ancestors (hancestors : scope.ancestors = nearest.levels) :
    scope.declaredProperties =
      nearest.declaredProperties.overlay scope.declared.properties := by
  unfold declaredProperties
  rw [levels, hancestors, List.foldl_append, List.foldl_cons, List.foldl_nil]

theorem expands_of_mem_declaredProperties (hnearest : Resolved .fail nearest)
    (hbelow : Below scope nearest) (hplain : scope.declared.IsPlain) {entry : String × String}
    (hentry : entry ∈ scope.declaredProperties.entries) : scope.Expands entry.2 := by
  rw [declaredProperties_of_ancestors hbelow.ancestors] at hentry
  rcases SortedMap.mem_overlay hentry with hentry | hentry
  · obtain ⟨d, parent, h⟩ := hnearest.exists_resolve
    have hexpands : nearest.Expands entry.2 :=
      SortedMap.ok_of_mem_mapM (effectiveProperties_of_resolve h) hentry
    exact hexpands.mono fun name ↦ hbelow.lookup
  · exact expands_of_plain (hplain.properties entry hentry)

theorem expands_of_mem_merge (hnearest : Resolved .fail nearest)
    (hbelow : Below scope nearest) (hplain : scope.declared.IsPlain)
    (htext : text ∈ (PluginConfig.merge (scope.levels.map (·.declared.plugins))).flatMap
      PluginConfig.texts) : scope.Expands text := by
  rw [levels, hbelow.ancestors, List.map_append, List.map_singleton] at htext
  rcases PluginConfig.mem_texts_merge_append htext with htext | htext
  · obtain ⟨d, parent, h⟩ := hnearest.exists_resolve
    have hexpands : nearest.Expands text :=
      exists_expand_of_expandPlugins (effectivePlugins_of_resolve h) htext
    exact hexpands.mono fun name ↦ hbelow.lookup
  · exact expands_of_plain (hplain.plugins text htext)

/-! ## Resolution below a resolved parent -/

theorem isSome_or_or (stated expanded : Option String) {inherited : Option String}
    (h : inherited.isSome = true) : (stated.or (expanded.or inherited)).isSome = true := by
  rw [Option.isSome_or, Option.isSome_or, h, Bool.or_true, Bool.or_true]

/-- A project below one with a version has a version. -/
theorem version_of_resolve (h : resolve policy d supplied = .ok result)
    (hparent : (result.parent?.bind (·.version)).isSome = true) :
    result.version.isSome = true := by
  obtain ⟨inherited, scope, _, _, _, _, hinherited, hscope, -, -, -, -, rfl⟩ := resolve_cases h
  obtain ⟨chain, -, -, rfl⟩ := inherit_eq_ok_iff.1 hinherited
  obtain ⟨groupId, version, -, -, rfl⟩ := substituteCoordinates_eq_ok_iff.1 hscope
  exact isSome_or_or version d.version hparent

/-- A project with expanded coordinates is below the nearest project that it inherits from. -/
theorem below_of_inherit (hnearest : Resolved policy nearest)
    (hscope : (extend d nearest.levels).substituteCoordinates policy = .ok scope) :
    Below scope nearest := by
  obtain ⟨groupId, version, -, -, rfl⟩ := substituteCoordinates_eq_ok_iff.1 hscope
  have hlast : nearest.levels.getLast? = some nearest := List.getLast?_concat
  refine ⟨rfl, fun h ↦ isSome_or_or groupId d.groupId ?_,
    fun h ↦ isSome_or_or version d.version ?_, fun h ↦ ?_⟩
  · rw [hlast]
    exact h
  · rw [hlast]
    exact h
  · obtain ⟨d, parent, hresolve⟩ := hnearest.exists_resolve
    exact version_of_resolve hresolve h

/-- A scope that stands below a resolved project and adds no placeholders can be substituted, and
its plugins can be merged. -/
theorem exists_applyPlugins (hnearest : Resolved .fail nearest) (hbelow : Below scope nearest)
    (hplain : scope.declared.IsPlain) (hscope : inherited.substituteCoordinates .fail = .ok scope) :
    ∃ substituted result, inherited.substitute .fail = .ok substituted ∧
      substituted.applyPlugins .fail = .ok result := by
  have hproperties : FailsOnly (fun _ ↦ False)
      (scope.declaredProperties.mapM (scope.expand .fail)) :=
    SortedMap.failsOnly_mapM fun entry hentry ↦
      (expands_of_mem_declaredProperties hnearest hbelow hplain hentry).failsOnly
  have hmodules : FailsOnly (fun _ ↦ False) (scope.declared.modules.mapM (scope.expand .fail)) :=
    .mapM fun text htext ↦ (expands_of_plain (hplain.modules text htext)).failsOnly
  have hplugins : FailsOnly (fun _ ↦ False)
      (scope.declared.plugins.mapM (scope.expandPlugin .fail)) :=
    failsOnly_expandPlugins fun text htext ↦
      (expands_of_plain (hplain.plugins text htext)).failsOnly
  have hmerged := failsOnly_expandPlugins fun text htext ↦
    (expands_of_mem_merge hnearest hbelow hplain htext).failsOnly
  obtain ⟨properties, hproperties⟩ := failsOnly_false_iff.1 hproperties
  obtain ⟨modules, hmodules⟩ := failsOnly_false_iff.1 hmodules
  obtain ⟨plugins, hplugins⟩ := failsOnly_false_iff.1 hplugins
  obtain ⟨merged, hmerged⟩ := failsOnly_false_iff.1 hmerged
  refine ⟨_, _, substitute_eq_ok_iff.2 ⟨scope, properties, modules, plugins, hscope, hproperties,
    hmodules, hplugins, rfl⟩, applyPlugins_eq_ok_iff.2 ⟨merged, ?_, rfl⟩⟩
  rw [declaredPlugins_with]
  exact hmerged

theorem exists_substituteCoordinates (hplain : inherited.declared.IsPlain) :
    ∃ scope, inherited.substituteCoordinates .fail = .ok scope := by
  have hgroupId : FailsOnly (fun _ ↦ False)
      (inherited.declared.groupId.mapM (inherited.expand .fail)) :=
    .option_mapM fun text htext ↦ (expands_of_plain (hplain.groupId text htext)).failsOnly
  have hversion : FailsOnly (fun _ ↦ False)
      (inherited.declared.version.mapM (inherited.expand .fail)) :=
    .option_mapM fun text htext ↦ (expands_of_plain (hplain.version text htext)).failsOnly
  obtain ⟨groupId, hgroupId⟩ := failsOnly_false_iff.1 hgroupId
  obtain ⟨version, hversion⟩ := failsOnly_false_iff.1 hversion
  exact ⟨_, substituteCoordinates_eq_ok_iff.2 ⟨groupId, version, hgroupId, hversion, rfl⟩⟩

/-- A descriptor without placeholders of its own, below a resolved parent, is resolved if it
inherits at all. -/
theorem exists_resolve_of_inherit (hparent : Resolved .fail parent) (hplain : d.IsPlain)
    (href : d.parentRef = some ref) (h : inherit d (some parent) = .ok inherited) :
    ∃ result, resolve .fail d (some parent) = .ok result := by
  obtain ⟨chain, hchain, -, rfl⟩ := inherit_eq_ok_iff.1 h
  obtain ⟨nearest, hnearest, -, rfl⟩ := exists_nearest_of_ancestorsOf hparent hchain href
  have hextend : (extend d nearest.levels).declared.IsPlain := hplain
  obtain ⟨scope, hscope⟩ := exists_substituteCoordinates hextend
  rw [← declared_of_substituteCoordinates hscope] at hextend
  obtain ⟨substituted, result, hsubstituted, hresult⟩ :=
    exists_applyPlugins hnearest (below_of_inherit hnearest hscope) hextend hscope
  exact ⟨result, resolve_eq_ok_iff.2 ⟨_, substituted, h, hsubstituted, hresult⟩⟩

/-- A descriptor without placeholders of its own, below a resolved parent, is resolved unless its
reference designates none of the projects at hand or its coordinates repeat those of an ancestor. -/
theorem resolve_plain (hparent : Resolved .fail parent) (hplain : d.IsPlain)
    (href : d.parentRef = some ref) :
    (∃ result, resolve .fail d (some parent) = .ok result) ∨
      resolve .fail d (some parent) = .error (.unresolvedParent d.artifactId ref) ∨
      ∃ names, resolve .fail d (some parent) = .error (.cyclic names) := by
  cases h : inherit d (some parent) with
  | ok inherited => exact .inl (exists_resolve_of_inherit hparent hplain href h)
  | error failure =>
    have hresolve : resolve .fail d (some parent) = .error failure := by
      rw [resolve, h]
      rfl
    have hfails : FailsOnly (fun failure ↦ failure = .unresolvedParent d.artifactId ref ∨
        ∃ names, failure = .cyclic names) (inherit d (some parent)) := by
      apply failsOnly_inherit
      · intro ref' href'
        exact .inl (by rw [Option.some.inj (href.symm.trans href')])
      · intro names
        exact .inr ⟨names, rfl⟩
    rcases hfails failure h with rfl | ⟨names, rfl⟩
    · exact .inr (.inl hresolve)
    · exact .inr (.inr ⟨names, hresolve⟩)

/-- A parent whose group id and plugin options have placeholders. -/
def templateParent : Descriptor :=
  { (default : Descriptor) with
    groupId := some "org.$\x7bname\x7d"
    artifactId := "parent"
    version := some "1"
    properties := SortedMap.ofList [("name", "x")]
    plugins := [⟨"jar", SortedMap.ofList [("group", .string "$\x7bproject.groupId\x7d")], none⟩]
    location := "/w/project.json" }

def plainChild : Descriptor :=
  { (default : Descriptor) with
    artifactId := "child"
    parentRef := some ⟨none, "parent", none, none⟩
    modules := ["a", "b"]
    location := "/w/child/project.json" }

theorem plainChild_isPlain : plainChild.IsPlain := by
  constructor <;> decide +kernel

theorem resolve_plainChild :
    ∃ parent, Resolved .fail parent ∧ plainChild.IsPlain ∧
      ((∃ result, resolve .fail plainChild (some parent) = .ok result) ∨
        resolve .fail plainChild (some parent) =
          .error (.unresolvedParent "child" ⟨none, "parent", none, none⟩) ∨
        ∃ names, resolve .fail plainChild (some parent) = .error (.cyclic names)) := by
  have hok : (resolve .fail templateParent none).isOk = true := by decide +kernel
  cases hparent : resolve .fail templateParent none with
  | error failure =>
    rw [hparent] at hok
    cases hok
  | ok parent =>
    exact ⟨parent, .root hparent, plainChild_isPlain,
      resolve_plain (.root hparent) plainChild_isPlain rfl⟩

end Project

end Reactor

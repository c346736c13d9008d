import Reactor.Project.Substitution
import Reactor.Proofs.SortedMap
import Reactor.Proofs.Value.Strings

/-!
# Texts in plugin options

Expanding plugins expands the strings nested in their options. Merging one more level adds no string
that is neither in the plugins merged so far nor in those of that level.
-/

namespace Reactor

namespace PluginConfig

def texts (plugin : PluginConfig) : List String :=
  plugin.options.entries.flatMap fun entry ↦ entry.2.strings

variable {plugin : PluginConfig} {plugins : List PluginConfig} {text : String}

theorem mem_texts {entry : String × Value} (hentry : entry ∈ plugin.options.entries)
    (htext : text ∈ entry.2.strings) : text ∈ plugin.texts :=
  List.mem_flatMap.2 ⟨entry, hentry, htext⟩

theorem mem_texts_overlay {base top : PluginConfig} (h : text ∈ (base.overlay top).texts) :
    text ∈ base.texts ∨ text ∈ top.texts := by
  obtain ⟨entry, hentry, htext⟩ := List.mem_flatMap.1 h
  rcases SortedMap.mem_overlay hentry with hentry | hentry
  · exact .inl (mem_texts hentry htext)
  · exact .inr (mem_texts hentry htext)

theorem mem_texts_mergeInto (h : text ∈ (mergeInto plugin plugins).flatMap texts) :
    text ∈ plugins.flatMap texts ∨ text ∈ plugin.texts := by
  induction plugins with
  | nil =>
    rw [mergeInto, List.flatMap_singleton] at h
    exact .inr h
  | cons first rest ih =>
    rw [mergeInto] at h
    rw [List.flatMap_cons, List.mem_append]
    split at h
    · rw [List.flatMap_cons, List.mem_append] at h
      rcases h with h | h
      · exact (mem_texts_overlay h).imp_left .inl
      · exact .inl (.inr h)
    · rw [List.flatMap_cons, List.mem_append] at h
      rcases h with h | h
      · exact .inl (.inl h)
      · exact (ih h).imp_left .inr

theorem mem_texts_foldl_mergeInto {level : List PluginConfig}
    (h : text ∈ (level.foldl (fun merged plugin ↦ mergeInto plugin merged) plugins).flatMap texts) :
    text ∈ plugins.flatMap texts ∨ text ∈ level.flatMap texts := by
  induction level generalizing plugins with
  | nil => exact .inl h
  | cons plugin rest ih =>
    rw [List.flatMap_cons, List.mem_append]
    rcases ih h with h | h
    · exact (mem_texts_mergeInto h).imp_right .inl
    · exact .inr (.inr h)

/-- Every text in the merged plugins is one of those merged before the last level, or one of the
last level. -/
theorem mem_texts_merge_append {levels : List (List PluginConfig)} {level : List PluginConfig}
    (h : text ∈ (merge (levels ++ [level])).flatMap texts) :
    text ∈ (merge levels).flatMap texts ∨ text ∈ level.flatMap texts := by
  rw [merge, List.flatten_append, List.flatten_singleton, List.foldl_append] at h
  exact mem_texts_foldl_mergeInto h

end PluginConfig

namespace Project

variable {scope : Project} {policy : MissingProperty} {P : Failure → Prop}
  {plugins results : List PluginConfig} {text : String}

theorem failsOnly_expandPlugins
    (h : ∀ text ∈ plugins.flatMap PluginConfig.texts, FailsOnly P (scope.expand policy text)) :
    FailsOnly P (plugins.mapM (scope.expandPlugin policy)) := by
  refine .mapM fun plugin hplugin ↦ ?_
  unfold expandPlugin
  refine FailsOnly.bind (SortedMap.failsOnly_mapM fun entry hentry ↦ ?_) fun options _ ↦ .ok _
  refine Value.failsOnly_mapStringsM entry.2 fun text htext ↦ h text ?_
  exact List.mem_flatMap.2 ⟨plugin, hplugin, PluginConfig.mem_texts hentry htext⟩

theorem exists_expand_of_expandPlugins (h : plugins.mapM (scope.expandPlugin policy) = .ok results)
    (htext : text ∈ plugins.flatMap PluginConfig.texts) :
    ∃ result, scope.expand policy text = .ok result := by
  obtain ⟨plugin, hplugin, htext⟩ := List.mem_flatMap.1 htext
  obtain ⟨expanded, -, hexpanded⟩ := ok_of_mem_mapM h hplugin
  obtain ⟨entry, hentry, htext⟩ := List.mem_flatMap.1 htext
  obtain ⟨options, hoptions, -⟩ := bind_eq_ok.1 hexpanded
  obtain ⟨value, hvalue⟩ := SortedMap.ok_of_mem_mapM hoptions hentry
  exact Value.ok_of_mapStringsM hvalue htext

end Project

end Reactor

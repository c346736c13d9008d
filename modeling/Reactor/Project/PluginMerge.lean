import Reactor.Descriptor.Basic

/-!
# Merging plugin configurations

The plugins of several levels, the root's first, become one list. A plugin that was seen before gets
the later options laid over its own, key by key, and the later skip flag if there is one; a new
plugin goes to the end.
-/

namespace Reactor.PluginConfig

/-- The configuration of a plugin with that of a later level laid over it. -/
def overlay (base top : PluginConfig) : PluginConfig :=
  ⟨base.id, base.options.overlay top.options, top.skip.or base.skip⟩

/-- Adds one configuration to the merged ones. -/
def mergeInto (plugin : PluginConfig) : List PluginConfig → List PluginConfig
  | [] => [plugin]
  | merged :: rest =>
    if merged.id = plugin.id then merged.overlay plugin :: rest
    else merged :: mergeInto plugin rest

def merge (levels : List (List PluginConfig)) : List PluginConfig :=
  levels.flatten.foldl (fun merged plugin ↦ mergeInto plugin merged) []

end Reactor.PluginConfig

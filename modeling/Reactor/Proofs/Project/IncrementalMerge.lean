import Reactor.Proofs.Project.PluginMerge

/-!
# Merging level by level

The levels of a project need not be merged all at once. Levels that have been merged already can
stand for the levels that they were merged from, at the root's side and at the leaf's side alike:
the ids keep their order, and every option and flag its last statement.
-/

namespace Reactor.PluginConfig

variable {plugin base top other : PluginConfig} {merged later : List PluginConfig}

theorem overlay_assoc (bottom middle top : PluginConfig) :
    (bottom.overlay middle).overlay top = bottom.overlay (middle.overlay top) := by
  simp only [overlay, SortedMap.overlay_assoc, Option.or_assoc]

/-- Two configurations of one plugin may be laid over each other before they are added. -/
theorem mergeInto_overlay (hid : base.id = top.id) (merged : List PluginConfig) :
    mergeInto (base.overlay top) merged = mergeInto top (mergeInto base merged) := by
  have hsame : (base.overlay top).id = base.id := rfl
  induction merged with
  | nil => rw [mergeInto, mergeInto, mergeInto, if_pos hid]
  | cons first rest ih =>
    rw [mergeInto, mergeInto, hsame]
    by_cases hfirst : first.id = base.id
    · have hover : (first.overlay base).id = top.id := hfirst.trans hid
      rw [if_pos hfirst, if_pos hfirst, mergeInto, if_pos hover, overlay_assoc]
    · have hfirst' : first.id ≠ top.id := fun heq ↦ hfirst (heq.trans hid.symm)
      rw [if_neg hfirst, if_neg hfirst, mergeInto, if_neg hfirst', ih]

/-- A plugin that was seen before may be added before or after another one. The other one need not
have been seen, so the order of the ids is at stake. -/
theorem mergeInto_comm (hne : plugin.id ≠ other.id) (hmem : plugin.id ∈ ids merged) :
    mergeInto plugin (mergeInto other merged) = mergeInto other (mergeInto plugin merged) := by
  induction merged with
  | nil => simp at hmem
  | cons first rest ih =>
    by_cases hplugin : first.id = plugin.id
    · have hother : first.id ≠ other.id := hplugin ▸ hne
      have hover : (first.overlay plugin).id ≠ other.id := hother
      simp only [mergeInto, if_pos hplugin, if_neg hother, if_neg hover]
    · have hrest : plugin.id ∈ ids rest := by simpa [Ne.symm hplugin] using hmem
      by_cases hother : first.id = other.id
      · have hover : (first.overlay other).id ≠ plugin.id := hplugin
        simp only [mergeInto, if_pos hother, if_neg hplugin, if_neg hover]
      · simp only [mergeInto, if_neg hother, if_neg hplugin, ih hrest]

/-- A plugin that was seen before may be added before or after others that are not the same. -/
theorem mergeInto_accumulate (hmem : plugin.id ∈ ids merged) (hnew : plugin.id ∉ ids later) :
    mergeInto plugin (accumulate merged later) = accumulate (mergeInto plugin merged) later := by
  induction later generalizing merged with
  | nil => rfl
  | cons next rest ih =>
    rw [ids_cons, List.mem_cons, not_or] at hnew
    have hmem' : plugin.id ∈ ids (mergeInto next merged) := mem_ids_mergeInto.2 (.inl hmem)
    calc
      mergeInto plugin (accumulate merged (next :: rest)) =
          mergeInto plugin (accumulate (mergeInto next merged) rest) := rfl
      _ = accumulate (mergeInto plugin (mergeInto next merged)) rest := ih hmem' hnew.2
      _ = accumulate (mergeInto next (mergeInto plugin merged)) rest := by
        rw [mergeInto_comm hnew.1 hmem]
      _ = accumulate (mergeInto plugin merged) (next :: rest) := rfl

/-- One more configuration may be added to the later ones before these are added. -/
theorem accumulate_mergeInto (hnodup : (ids later).Nodup) (plugin : PluginConfig) :
    accumulate merged (mergeInto plugin later) = mergeInto plugin (accumulate merged later) := by
  induction later generalizing merged with
  | nil => rfl
  | cons next rest ih =>
    obtain ⟨hnext, hrest⟩ := List.nodup_cons.1 hnodup
    rw [mergeInto]
    by_cases hid : next.id = plugin.id
    · have hmem : plugin.id ∈ ids (mergeInto next merged) := mem_ids_mergeInto.2 (.inr hid.symm)
      rw [if_pos hid]
      calc
        accumulate merged (next.overlay plugin :: rest) =
            accumulate (mergeInto (next.overlay plugin) merged) rest := rfl
        _ = accumulate (mergeInto plugin (mergeInto next merged)) rest := by
          rw [mergeInto_overlay hid]
        _ = mergeInto plugin (accumulate (mergeInto next merged) rest) :=
          (mergeInto_accumulate hmem (hid ▸ hnext)).symm
    · rw [if_neg hid]
      exact ih hrest

/-- Merged configurations stand for those that they were merged from. -/
theorem accumulate_accumulate (merged declared : List PluginConfig) :
    accumulate merged (accumulate [] declared) = accumulate merged declared := by
  induction declared using List.reverseRecOn with
  | nil => rfl
  | append_singleton declared plugin ih =>
    have hnodup := (isMergeOf_accumulate declared).nodup
    calc
      accumulate merged (accumulate [] (declared ++ [plugin])) =
          accumulate merged (mergeInto plugin (accumulate [] declared)) := by
        rw [accumulate_append]
        rfl
      _ = mergeInto plugin (accumulate merged (accumulate [] declared)) :=
        accumulate_mergeInto hnodup plugin
      _ = accumulate merged (declared ++ [plugin]) := by
        rw [ih, accumulate_append]
        rfl

/-- The upper levels, or the upper and the lower ones apart, may be merged beforehand. Merging what
has been merged changes nothing. -/
theorem merge_append (upper lower : List (List PluginConfig)) :
    merge (upper ++ lower) = merge (merge upper :: lower) ∧
      merge (upper ++ lower) = merge [merge upper, merge lower] ∧
      merge [merge upper] = merge upper := by
  have hagain : accumulate [] (merge upper) = merge upper := accumulate_accumulate [] upper.flatten
  have happend : merge (upper ++ lower) = accumulate (merge upper) lower.flatten := by
    rw [merge_eq_accumulate, List.flatten_append, accumulate_append, ← merge_eq_accumulate]
  refine ⟨?_, ?_, ?_⟩
  · rw [happend, merge_eq_accumulate (_ :: _), List.flatten_cons, accumulate_append, hagain]
  · rw [happend, merge_eq_accumulate [_, _], List.flatten_cons, List.flatten_singleton,
      accumulate_append, hagain, merge_eq_accumulate lower, accumulate_accumulate]
  · rw [merge_eq_accumulate [_], List.flatten_singleton, hagain]

end Reactor.PluginConfig

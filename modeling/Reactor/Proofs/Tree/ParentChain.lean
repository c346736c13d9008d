import Mathlib.Logic.Relation
import Reactor.Proofs.Descriptor.Loading
import Reactor.Tree.ParentSearch

/-!
# Chains of parents on disk

Parent references lead from descriptor to descriptor. A search for a parent that comes to an end
has never met a location twice, and its result does not depend on what else was visited before, as
long as the chain does not lead there.
-/

namespace Reactor.ParentSource

open Relation (TransGen ReflTransGen)

/-- The parent reference of one descriptor leads to another one on disk, whether or not that is the
project which the reference designates. -/
def Leads (fs : FileSystem) (loader : Loader) (d next : Descriptor) : Prop :=
  ∃ ref, d.parentRef = some ref ∧ loader.load fs (Path.join d.baseDir ref.searchPath) = .ok next

variable {fs : FileSystem} {loader : Loader} {policy : MissingProperty}
  {visited visited' : List Visit} {d next : Descriptor} {parent : Option Project}

/-- What a chain leads to was loaded from somewhere. -/
theorem exists_load_of_transGen (h : TransGen (Leads fs loader) d next) :
    ∃ path, loader.load fs path = .ok next := by
  obtain ⟨last, -, ref, -, hload⟩ := TransGen.tail'_iff.1 h
  exact ⟨_, hload⟩

/-- The search, one step at a time. -/
theorem search_eq (visited : List Visit) (d : Descriptor) :
    search fs loader policy visited d =
      match d.parentRef with
      | none => .ok none
      | some ref =>
        match loader.load fs (Path.join d.baseDir ref.searchPath) with
        | .error (.notFound _) => .ok none
        | .error failure => .error failure
        | .ok candidate =>
          if FileSystem.onBranch visited candidate.location then
            .error (.cyclic (cycleOf visited candidate))
          else (do
            let grandparent ← search fs loader policy
              (visited ++ [⟨candidate.location, candidate.artifactId⟩]) candidate
            let parent ← Project.resolve policy candidate grandparent
            .ok (if parent.isReferencedBy ref then some parent else none)) := by
  rw [search]
  cases d.parentRef with
  | none => rfl
  | some ref =>
    simp only
    split <;> simp_all

/-- Induction along a search. What holds of the next descriptor has to carry over to the one that
leads there. -/
theorem search_induction (fs : FileSystem) (loader : Loader)
    {motive : List Visit → Descriptor → Prop}
    (step : ∀ visited d,
      (∀ next, Leads fs loader d next → FileSystem.onBranch visited next.location = false →
        motive (visited ++ [⟨next.location, next.artifactId⟩]) next) →
      motive visited d)
    (visited : List Visit) (d : Descriptor) : motive visited d :=
  step visited d fun next _hleads _hnew ↦
    search_induction fs loader step (visited ++ [⟨next.location, next.artifactId⟩]) next
termination_by fs.unvisited visited
decreasing_by
  obtain ⟨ref, -, hload⟩ := _hleads
  exact FileSystem.unvisited_append_lt (Loader.location_mem_files hload) _hnew

/-- A search that cannot go on ends in the same way whatever was visited. -/
theorem search_of_not_leads (h : ∀ next, ¬Leads fs loader d next) :
    search fs loader policy visited d = search fs loader policy visited' d := by
  rw [search_eq, search_eq]
  cases href : d.parentRef with
  | none => rfl
  | some ref =>
    cases hload : loader.load fs (Path.join d.baseDir ref.searchPath) with
    | error failure => cases failure <;> simp [hload]
    | ok next => exact absurd ⟨ref, href, hload⟩ (h next)

/-- A search that meets a location for the second time fails. -/
theorem onBranch_eq_false_of_search (h : search fs loader policy visited d = .ok parent)
    (hnext : Leads fs loader d next) : FileSystem.onBranch visited next.location = false := by
  obtain ⟨ref, href, hload⟩ := hnext
  by_contra hseen
  rw [search_eq, href] at h
  simp [hload, hseen] at h

/-- A search that meets a new location goes on from there. -/
theorem search_of_leads {ref : ParentRef} (href : d.parentRef = some ref)
    (hload : loader.load fs (Path.join d.baseDir ref.searchPath) = .ok next)
    (hnew : FileSystem.onBranch visited next.location = false) :
    search fs loader policy visited d = (do
      let grandparent ← search fs loader policy (visited ++ [⟨next.location, next.artifactId⟩]) next
      let parent ← Project.resolve policy next grandparent
      .ok (if parent.isReferencedBy ref then some parent else none)) := by
  rw [search_eq, href]
  simp [hload, hnew]

theorem onBranch_append_singleton (location location' artifactId : String) :
    FileSystem.onBranch (visited ++ [⟨location, artifactId⟩]) location' =
      (FileSystem.onBranch visited location' || location == location') := by
  simp [FileSystem.onBranch, Bool.beq_eq_decide_eq]

/-- A search that succeeds never comes back to a location that was visited before. -/
theorem onBranch_eq_false_of_transGen {visited : List Visit} {d next : Descriptor}
    {parent : Option Project} (h : search fs loader policy visited d = .ok parent)
    (hchain : TransGen (Leads fs loader) d next) :
    FileSystem.onBranch visited next.location = false := by
  induction visited, d using search_induction fs loader generalizing parent next with
  | step visited d ih =>
    obtain ⟨candidate, hcandidate, hrest⟩ := TransGen.head'_iff.1 hchain
    have hnew := onBranch_eq_false_of_search h hcandidate
    rcases Relation.reflTransGen_iff_eq_or_transGen.1 hrest with rfl | hrest
    · exact hnew
    · obtain ⟨ref, href, hload⟩ := id hcandidate
      rw [search_of_leads href hload hnew] at h
      obtain ⟨grandparent, hgrandparent, -⟩ := bind_eq_ok.1 h
      have hlater := ih candidate hcandidate hnew hgrandparent hrest
      rw [onBranch_append_singleton, Bool.or_eq_false_iff] at hlater
      exact hlater.1

/-- The result of a search depends on the visited locations only as far as the chain leads there. -/
theorem search_of_search {visited visited' : List Visit} {d : Descriptor}
    {parent : Option Project} (h : search fs loader policy visited d = .ok parent)
    (hunvisited : ∀ next, TransGen (Leads fs loader) d next →
      FileSystem.onBranch visited' next.location = false) :
    search fs loader policy visited' d = .ok parent := by
  induction visited, d using search_induction fs loader generalizing visited' parent with
  | step visited d ih =>
    by_cases hleads : ∃ next, Leads fs loader d next
    · obtain ⟨candidate, hcandidate⟩ := hleads
      have hnew := onBranch_eq_false_of_search h hcandidate
      have hnew' := hunvisited candidate (.single hcandidate)
      obtain ⟨ref, href, hload⟩ := id hcandidate
      rw [search_of_leads href hload hnew] at h
      rw [search_of_leads href hload hnew']
      obtain ⟨grandparent, hgrandparent, hparent⟩ := bind_eq_ok.1 h
      refine bind_eq_ok.2 ⟨grandparent, ?_, hparent⟩
      refine ih candidate hcandidate hnew hgrandparent fun next hnext ↦ ?_
      -- The chain from the candidate leads neither to what was visited nor back to the candidate.
      have hfresh := onBranch_eq_false_of_transGen hgrandparent hnext
      rw [onBranch_append_singleton, Bool.or_eq_false_iff] at hfresh ⊢
      exact ⟨hunvisited next (.head hcandidate hnext), hfresh.2⟩
    · rw [search_of_not_leads (not_exists.1 hleads), h]

end Reactor.ParentSource

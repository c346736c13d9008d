import Mathlib.Data.List.Chain
import Reactor.Proofs.Project.Ancestors
import Reactor.Proofs.Tree.Standalone
import Reactor.Proofs.Workspace.RegularFiles

/-!
# The parent that is found on disk

Parent references are followed upwards from descriptor to descriptor, and the descriptors are
resolved on the way back down. The search ends, since it stops at the first location that it meets
for the second time. A project that it finds stands at the lower end of the whole chain: its
ancestors are the projects of all descriptors that the references lead to, up to one that refers to
no parent. If any level in between was missing or was not the one that is referred to, no project is
found at all.
-/

namespace Reactor

/-- The entry of a branch for a loaded descriptor, whose location is canonical. -/
def Descriptor.visit (d : Descriptor) : Visit :=
  ⟨d.location, d.artifactId⟩

namespace ParentSource

variable {fs : FileSystem} {loader : Loader} {policy : MissingProperty} {visited : List Visit}
  {d child next : Descriptor} {above : List Descriptor} {parent grandparent : Project}

/-- What a search has visited when parent references have led it from a child through the given
descriptors. -/
def visits (fs : FileSystem) (child : Descriptor) (above : List Descriptor) : List Visit :=
  ⟨fs.canonical child.location, child.artifactId⟩ :: above.map (·.visit)

theorem visits_append (child : Descriptor) (above beyond : List Descriptor) :
    visits fs child (above ++ beyond) = visits fs child above ++ beyond.map (·.visit) := by
  rw [visits, List.map_append, visits, List.cons_append]

theorem exists_load_of_isChain (h : (d :: above).IsChain (Leads fs loader)) :
    ∀ next ∈ above, ∃ path, loader.load fs path = .ok next := by
  induction above generalizing d with
  | nil => simp
  | cons first rest ih =>
    obtain ⟨⟨ref, -, hload⟩, hrest⟩ := List.isChain_cons_cons.1 h
    intro next hnext
    rcases List.mem_cons.1 hnext with rfl | hnext
    · exact ⟨_, hload⟩
    · exact ih hrest next hnext

/-! ## The search ends -/

/-- The descriptor at which a search goes on, with the reference that leads there. The search ends
here if there is no such descriptor, and it fails if that one cannot be read or was visited. -/
def ascend (fs : FileSystem) (loader : Loader) (visited : List Visit) (d : Descriptor) :
    Except Failure (Option (ParentRef × Descriptor)) :=
  match d.parentRef with
  | none => .ok none
  | some ref =>
    match loader.load fs (Path.join d.baseDir ref.searchPath) with
    | .error (.notFound _) => .ok none
    | .error failure => .error failure
    | .ok candidate =>
      if FileSystem.onBranch visited candidate.location then
        .error (.cyclic (cycleOf visited candidate))
      else .ok (some (ref, candidate))

theorem search_eq_ascend (visited : List Visit) (d : Descriptor) :
    search fs loader policy visited d = (do
      match ← ascend fs loader visited d with
      | none => .ok none
      | some (ref, candidate) =>
        let grandparent ← search fs loader policy (visited ++ [candidate.visit]) candidate
        let parent ← Project.resolve policy candidate grandparent
        .ok (if parent.isReferencedBy ref then some parent else none)) := by
  rw [search_eq, ascend]
  cases d.parentRef with
  | none => rfl
  | some ref =>
    cases hload : loader.load fs (Path.join d.baseDir ref.searchPath) with
    | error failure => cases failure <;> simp only [hload] <;> rfl
    | ok candidate =>
      simp only [hload]
      split <;> rfl

theorem ascend_eq_ok_some {ref : ParentRef}
    (h : ascend fs loader visited d = .ok (some (ref, next))) :
    d.parentRef = some ref ∧ loader.load fs (Path.join d.baseDir ref.searchPath) = .ok next ∧
      FileSystem.onBranch visited next.location = false := by
  unfold ascend at h
  cases href : d.parentRef with
  | none => simp [href] at h
  | some found =>
    cases hload : loader.load fs (Path.join d.baseDir found.searchPath) with
    | error failure => cases failure <;> simp [href, hload] at h
    | ok candidate =>
      simp only [href, hload] at h
      split at h
      · cases h
      · rename_i hnew
        obtain ⟨rfl, rfl⟩ := Prod.mk.inj (Option.some.inj (Except.ok.inj h))
        exact ⟨rfl, hload, by simpa using hnew⟩

/-- The parent of a descriptor when at most `limit` searches may be nested, this one included. -/
def searchWithin (fs : FileSystem) (loader : Loader) (policy : MissingProperty) :
    Nat → List Visit → Descriptor → Limited Failure (Option Project)
  | 0, _, _ => .exceeded
  | limit + 1, visited, d => do
    match ← .within (ascend fs loader visited d) with
    | none => return none
    | some (ref, candidate) =>
      let grandparent ← searchWithin fs loader policy limit (visited ++ [candidate.visit]) candidate
      let parent ← .within (Project.resolve policy candidate grandparent)
      return if parent.isReferencedBy ref then some parent else none

/-- A limit that leaves one search for each regular file that is not visited yet is never
reached. -/
theorem searchWithin_eq {limit : Nat} (hvisited : fs.ProperBranch visited)
    (hlimit : fs.regularFiles.card + 2 ≤ visited.length + limit) :
    searchWithin fs loader policy limit visited d =
      .within (search fs loader policy visited d) := by
  induction limit generalizing visited d with
  | zero =>
    have hlength := hvisited.length_le
    omega
  | succ limit ih =>
    rw [searchWithin, search_eq_ascend]
    apply Limited.within_bind
    intro found hfound
    cases found with
    | none => rfl
    | some found =>
      obtain ⟨ref, candidate⟩ := found
      obtain ⟨-, hload, hnew⟩ := ascend_eq_ok_some hfound
      have hnext : fs.ProperBranch (visited ++ [candidate.visit]) :=
        hvisited.append (Loader.isRegular_location hload) hnew
      have hlater := @ih (visited ++ [candidate.visit]) candidate hnext
        (by rw [List.length_append, List.length_singleton]; omega)
      simp only [hlater]
      exact Limited.within_bind fun grandparent _ ↦ Limited.map_within _ _

/-! ## The search stops at a location that it has visited -/

/-- The entries of a branch from a location back on, the last one first. -/
theorem cycleOf_append_cons {before between : List Visit} {first : Visit}
    (hnodup : ((before ++ first :: between).map (·.location)).Nodup)
    (hfirst : first.location = d.location) :
    cycleOf (before ++ first :: between) d =
      d.artifactId :: (first :: between).reverse.map (·.artifactId) := by
  have hother : ∀ visit ∈ before, decide (visit.location ≠ d.location) = true := by
    intro visit hvisit
    rw [List.map_append, List.nodup_append] at hnodup
    obtain ⟨-, -, hdisjoint⟩ := hnodup
    refine decide_eq_true (hfirst ▸ hdisjoint _ (List.mem_map_of_mem hvisit) _ ?_)
    exact List.mem_map_of_mem List.mem_cons_self
  have hdrop : (before ++ first :: between).dropWhile (·.location ≠ d.location) =
      first :: between := by
    rw [List.dropWhile_append_of_pos hother, List.dropWhile_cons_of_neg (by simp [hfirst])]
  rw [cycleOf, hdrop]

/-- A search that is led through new locations to one that was visited fails with the cycle. The
failure comes down unchanged, as nothing is resolved before the search above has ended. -/
theorem search_of_revisit (hchain : (d :: (above ++ [next])).IsChain (Leads fs loader))
    (hnodup : ((visited ++ above.map (·.visit)).map (·.location)).Nodup)
    (hold : next.location ∈ (visited ++ above.map (·.visit)).map (·.location)) :
    search fs loader policy visited d =
      .error (.cyclic (cycleOf (visited ++ above.map (·.visit)) next)) := by
  induction above generalizing visited d with
  | nil =>
    obtain ⟨⟨ref, href, hload⟩, -⟩ := List.isChain_cons_cons.1 hchain
    rw [List.map_nil, List.append_nil] at hold ⊢
    rw [search_eq, href]
    simp only [hload]
    rw [if_pos (FileSystem.onBranch_iff.2 hold)]
  | cons first rest ih =>
    obtain ⟨⟨ref, href, hload⟩, hrest⟩ := List.isChain_cons_cons.1 hchain
    have hsplit : visited ++ (first :: rest).map (·.visit) =
        visited ++ [first.visit] ++ rest.map (·.visit) := by
      rw [List.map_cons, List.append_assoc, List.singleton_append]
    rw [hsplit] at hnodup hold ⊢
    have hnew : FileSystem.onBranch visited first.location = false := by
      have hfirst := hnodup.sublist ((List.sublist_append_left _ _).map _)
      obtain ⟨hfirst, -⟩ := FileSystem.nodup_locations_append_iff.1 hfirst
      exact Bool.eq_false_iff.2 (mt FileSystem.onBranch_iff.1 hfirst)
    have herror := ih hrest hnodup hold
    rw [search_of_leads href hload hnew]
    change search fs loader policy (visited ++ [first.visit]) first >>= _ = _
    rw [herror]
    rfl

/-- Descriptors at repeated locations have a first one at a location that was visited before. -/
theorem exists_first_revisit (h : ¬((visits fs child above).map (·.location)).Nodup) :
    ∃ before next beyond, above = before ++ next :: beyond ∧
      ((visits fs child before).map (·.location)).Nodup ∧
      next.location ∈ (visits fs child before).map (·.location) := by
  induction above using List.reverseRecOn with
  | nil => exact absurd (List.nodup_singleton _) h
  | append_singleton before next ih =>
    by_cases hbefore : ((visits fs child before).map (·.location)).Nodup
    · refine ⟨before, next, [], rfl, hbefore, ?_⟩
      by_contra hnew
      rw [visits_append] at h
      exact h (FileSystem.nodup_locations_append_iff.2 ⟨hnew, hbefore⟩)
    · obtain ⟨earlier, first, beyond, rfl, hnodup, hold⟩ := ih hbefore
      exact ⟨earlier, first, beyond ++ [next], by simp, hnodup, hold⟩

/-! ## The project that is found -/

/-- Whether a project is the parent of a descriptor as the files have it. The reference of the
descriptor designates the project. Parent references lead from the descriptor through those of the
project and of its ancestors, and end there. Each level is what its descriptor is resolved to below
the level before it. -/
structure IsParent (fs : FileSystem) (loader : Loader) (policy : MissingProperty)
    (d : Descriptor) (parent : Project) : Prop where
  designated : ∃ ref, d.parentRef = some ref ∧ parent.isReferencedBy ref = true
  chain : (d :: parent.selfAndAncestors.map (·.declared)).IsChain (Leads fs loader)
  ends : ∃ root, parent.levels.head? = some root ∧ root.declared.parentRef = none
  resolved : ∀ before level, before ++ [level] <+: parent.levels →
    Project.resolve policy level.declared before.getLast? = .ok level

/-- How a search finds a parent: its descriptor is at a new location, and it is resolved below what
the search for its own parent ends with. -/
theorem search_eq_ok_some (h : search fs loader policy visited d = .ok (some parent)) :
    ∃ ref supplied, d.parentRef = some ref ∧
      loader.load fs (Path.join d.baseDir ref.searchPath) = .ok parent.declared ∧
      FileSystem.onBranch visited parent.declared.location = false ∧
      search fs loader policy (visited ++ [parent.declared.visit]) parent.declared = .ok supplied ∧
      Project.resolve policy parent.declared supplied = .ok parent ∧
      parent.isReferencedBy ref = true := by
  rw [search_eq_ascend] at h
  obtain ⟨found, hfound, h⟩ := bind_eq_ok.1 h
  cases found with
  | none => cases h
  | some found =>
    obtain ⟨ref, candidate⟩ := found
    obtain ⟨href, hload, hnew⟩ := ascend_eq_ok_some hfound
    obtain ⟨supplied, hsupplied, h⟩ := bind_eq_ok.1 h
    obtain ⟨project, hresolve, h⟩ := bind_eq_ok.1 h
    split at h
    · rename_i hdesignates
      obtain rfl := Option.some.inj (Except.ok.inj h)
      obtain rfl := Project.declared_of_resolve hresolve
      exact ⟨ref, supplied, href, hload, hnew, hsupplied, hresolve, hdesignates⟩
    · cases h

/-- A descriptor that is resolved below what the search for its parent ends with either refers to no
parent, or has all levels of the parent that was found as its ancestors. -/
theorem ancestors_of_search {supplied : Option Project} {project : Project}
    (hsearch : search fs loader policy visited d = .ok supplied)
    (hresolve : Project.resolve policy d supplied = .ok project) :
    (supplied = none ∧ d.parentRef = none ∧ project.ancestors = []) ∨
      ∃ grandparent, supplied = some grandparent ∧ project.ancestors = grandparent.levels := by
  have hancestors := Project.ancestorsOf_of_resolve hresolve
  cases supplied with
  | none =>
    rcases Project.ancestorsOf_eq_ok hancestors with ⟨href, hnil⟩ | ⟨_, _, _, _, -, hnone, -⟩
    · exact .inl ⟨rfl, href, hnil⟩
    · cases hnone
  | some grandparent =>
    obtain ⟨ref, -, href, -, -, -, -, hdesignates⟩ := search_eq_ok_some hsearch
    rw [Project.ancestorsOf_of_isReferencedBy href hdesignates] at hancestors
    exact .inr ⟨grandparent, rfl, (Except.ok.inj hancestors).symm⟩

/-- The descriptors of the levels that are found are at different locations, none of which was
visited before. -/
theorem nodup_of_search {visited : List Visit} {d : Descriptor} {parent : Project}
    (h : search fs loader policy visited d = .ok (some parent))
    (hvisited : (visited.map (·.location)).Nodup) :
    (visited.map (·.location) ++
      parent.selfAndAncestors.map (·.declared.location)).Nodup := by
  induction visited, d using search_induction fs loader generalizing parent with
  | step visited d ih =>
    obtain ⟨ref, supplied, href, hload, hnew, hsearch, hresolve, -⟩ := search_eq_ok_some h
    have hnext : ((visited ++ [parent.declared.visit]).map (·.location)).Nodup :=
      FileSystem.nodup_locations_append_iff.2
        ⟨mt FileSystem.onBranch_iff.2 (Bool.eq_false_iff.1 hnew), hvisited⟩
    rcases ancestors_of_search hsearch hresolve with ⟨-, -, hancestors⟩ |
      ⟨grandparent, rfl, hancestors⟩
    · rw [Project.selfAndAncestors, hancestors]
      rw [List.map_append] at hnext
      exact hnext
    · have hlater := ih parent.declared ⟨ref, href, hload⟩ hnew hsearch hnext
      rw [List.map_append, List.append_assoc] at hlater
      rw [Project.selfAndAncestors_of_ancestors hancestors]
      exact hlater

/-- What a search finds is the parent. The induction goes up the chain, so that what holds of the
levels above is there when the next level is resolved below them. -/
theorem isParent_of_search {visited : List Visit} {d : Descriptor} {parent : Project}
    (h : search fs loader policy visited d = .ok (some parent)) :
    IsParent fs loader policy d parent := by
  induction visited, d using search_induction fs loader generalizing parent with
  | step visited d ih =>
    obtain ⟨ref, supplied, href, hload, hnew, hsearch, hresolve, hdesignates⟩ := search_eq_ok_some h
    have hleads : Leads fs loader d parent.declared := ⟨ref, href, hload⟩
    rcases ancestors_of_search hsearch hresolve with ⟨rfl, hnone, hancestors⟩ |
      ⟨grandparent, rfl, hancestors⟩
    · have hlevels : parent.levels = [parent] := by rw [Project.levels, hancestors, List.nil_append]
      refine ⟨⟨ref, href, hdesignates⟩, ?_, ⟨parent, by rw [hlevels]; rfl, hnone⟩, ?_⟩
      · rw [Project.selfAndAncestors, hancestors]
        exact .cons_cons hleads (.singleton _)
      · intro before level hbefore
        rcases Project.initial_levels_iff.1 hbefore with ⟨rfl, rfl⟩ | habove
        · rw [hancestors]
          exact hresolve
        · rw [hancestors, List.prefix_nil] at habove
          exact absurd habove (by simp)
    · have habove := ih parent.declared hleads hnew hsearch
      have hlevels : parent.levels = grandparent.levels ++ [parent] := by
        rw [Project.levels, hancestors]
      obtain ⟨root, hroot, hends⟩ := habove.ends
      refine ⟨⟨ref, href, hdesignates⟩, ?_, ⟨root, ?_, hends⟩, ?_⟩
      · rw [Project.selfAndAncestors_of_ancestors hancestors]
        exact .cons_cons hleads habove.chain
      · rw [hlevels, List.head?_append, hroot]
        rfl
      · intro before level hbefore
        rcases Project.initial_levels_iff.1 hbefore with ⟨rfl, rfl⟩ | hbefore
        · rw [hancestors, Project.levels, List.getLast?_concat]
          exact hresolve
        · exact habove.resolved before level (hancestors ▸ hbefore)

namespace IsParent

variable (h : IsParent fs loader policy d parent)

include h

/-- Each level is at the location of its descriptor. -/
theorem location_eq :
    ∀ level ∈ parent.selfAndAncestors, level.location = level.declared.location := by
  intro level hlevel
  have hmem : level ∈ parent.levels := by
    rw [← Project.reverse_levels] at hlevel
    exact List.mem_reverse.1 hlevel
  obtain ⟨before, beyond, hsplit⟩ := List.append_of_mem hmem
  apply Project.location_of_resolve
  apply h.resolved before level
  exact ⟨beyond, by rw [hsplit, List.append_assoc, List.singleton_append]⟩

/-- Inheritance from the parent succeeds, or it finds repeated coordinates. -/
theorem inherit_ne_unresolvedParent (project : String) (ref : ParentRef) :
    Project.inherit d (some parent) ≠ .error (.unresolvedParent project ref) := by
  obtain ⟨found, href, hdesignates⟩ := h.designated
  unfold Project.inherit
  rw [Project.ancestorsOf_of_isReferencedBy href hdesignates]
  simp only [bind, Except.bind]
  split <;> simp

/-- If no level is at the canonical location of the child, none is at its location as written,
however its path is written. -/
theorem nodup_locations
    (hnodup : (fs.canonical d.location :: parent.selfAndAncestors.map (·.location)).Nodup)
    (hfs : fs.WellFormed) :
    ((d.location :: parent.selfAndAncestors.map (·.location)).map Path.normal).Nodup := by
  obtain ⟨hnew, habove⟩ := List.nodup_cons.1 hnodup
  have hcanonical : ∀ location ∈ parent.selfAndAncestors.map (·.location),
      fs.canonical? location = some location := by
    intro location hlocation
    obtain ⟨level, hlevel, rfl⟩ := List.mem_map.1 hlocation
    obtain ⟨path, hload⟩ := exists_load_of_isChain h.chain _ (List.mem_map_of_mem hlevel)
    rw [h.location_eq level hlevel]
    exact Loader.canonical?_location hfs hload
  have hlevels : (parent.selfAndAncestors.map (·.location)).map Path.normal =
      parent.selfAndAncestors.map (·.location) := by
    calc
      _ = (parent.selfAndAncestors.map (·.location)).map id :=
        List.map_congr_left fun location hlocation ↦
          FileSystem.normal_canonical hfs (hcanonical location hlocation)
      _ = _ := List.map_id _
  rw [List.map_cons, hlevels]
  refine List.nodup_cons.2 ⟨fun hold ↦ hnew ?_, habove⟩
  rw [FileSystem.canonical_of_normal hfs (hcanonical _ hold) rfl]
  exact hold

/-- Every level is a resolved project. The induction goes down the levels, each below the last one
before it. -/
theorem resolved_of_initial {before : List Project} {level : Project}
    (hinitial : before ++ [level] <+: parent.levels) : Project.Resolved policy level := by
  induction before using List.reverseRecOn generalizing level with
  | nil => exact .root (h.resolved [] level hinitial)
  | append_singleton above last ih =>
    have hresolve := h.resolved _ level hinitial
    rw [List.getLast?_concat] at hresolve
    exact .child (ih ((List.prefix_append _ _).trans hinitial)) hresolve

/-- The levels above a parent are those of a parent of its own. -/
theorem exists_grandparent (hancestors : parent.ancestors ≠ []) :
    ∃ grandparent, parent.ancestors = grandparent.levels ∧
      Project.resolve policy parent.declared (some grandparent) = .ok parent ∧
      IsParent fs loader policy parent.declared grandparent := by
  rcases List.eq_nil_or_concat parent.ancestors with hnil | ⟨above, grandparent, hsplit⟩
  · exact absurd hnil hancestors
  rw [List.concat_eq_append] at hsplit
  have hresolve : Project.resolve policy parent.declared (some grandparent) = .ok parent := by
    have hself := h.resolved parent.ancestors parent (List.prefix_refl _)
    rw [hsplit, List.getLast?_concat] at hself
    exact hself
  have habove : above ++ [grandparent] <+: parent.levels := by
    rw [← hsplit]
    exact List.prefix_append _ _
  have hresolved : Project.Resolved policy grandparent := h.resolved_of_initial habove
  have hchain := Project.ancestorsOf_of_resolve hresolve
  rcases Project.ancestorsOf_eq_ok hchain with ⟨-, hnil⟩ | ⟨ref, -, -, -, href, -⟩
  · exact absurd hnil hancestors
  obtain ⟨nearest, -, hdesignates, hlevels⟩ :=
    Project.exists_nearest_of_ancestorsOf hresolved hchain href
  have hnearest : above ++ [grandparent] = nearest.ancestors ++ [nearest] :=
    hsplit.symm.trans hlevels
  obtain ⟨-, rfl⟩ := List.append_singleton_inj.1 hnearest
  have hinitial : grandparent.levels <+: parent.levels := hlevels ▸ List.prefix_append _ _
  refine ⟨grandparent, hlevels, hresolve, ⟨ref, href, hdesignates⟩, ?_, ?_, ?_⟩
  · have hbelow := h.chain
    rw [Project.selfAndAncestors_of_ancestors hlevels] at hbelow
    exact (List.isChain_cons_cons.1 hbelow).2
  · obtain ⟨root, hroot, hends⟩ := h.ends
    refine ⟨root, ?_, hends⟩
    have hne : grandparent.levels ≠ [] := hlevels ▸ hancestors
    rw [Project.levels, hlevels, List.head?_append_of_ne_nil _ hne] at hroot
    exact hroot
  · exact fun before level hbefore ↦ h.resolved before level (hbefore.trans hinitial)

end IsParent

/-- A parent whose levels are at new locations is found. -/
theorem search_of_isParent {visited : List Visit} {d : Descriptor} {parent : Project}
    (h : IsParent fs loader policy d parent)
    (hnew : (visited.map (·.location) ++
      parent.selfAndAncestors.map (·.declared.location)).Nodup) :
    search fs loader policy visited d = .ok (some parent) := by
  induction visited, d using search_induction fs loader generalizing parent with
  | step visited d ih =>
    obtain ⟨ref, href, hdesignates⟩ := h.designated
    obtain ⟨⟨ref', href', hload⟩, -⟩ := List.isChain_cons_cons.1 h.chain
    obtain rfl := Option.some.inj (href.symm.trans href')
    have hfresh : FileSystem.onBranch visited parent.declared.location = false := by
      rw [List.nodup_append] at hnew
      obtain ⟨-, -, hdisjoint⟩ := hnew
      refine Bool.eq_false_iff.2 fun hold ↦ ?_
      exact hdisjoint _ (FileSystem.onBranch_iff.1 hold) _ List.mem_cons_self rfl
    have habove : ∃ supplied,
        search fs loader policy (visited ++ [parent.declared.visit]) parent.declared =
            .ok supplied ∧
          Project.resolve policy parent.declared supplied = .ok parent := by
      by_cases hancestors : parent.ancestors = []
      · have hlevels : parent.levels = [parent] := by
          rw [Project.levels, hancestors, List.nil_append]
        obtain ⟨root, hroot, hends⟩ := h.ends
        rw [hlevels] at hroot
        obtain rfl := Option.some.inj hroot
        refine ⟨none, ?_, h.resolved [] _ (hlevels ▸ List.prefix_refl _)⟩
        rw [search_eq, hends]
      · obtain ⟨grandparent, hlevels, hresolve, hgrandparent⟩ := h.exists_grandparent hancestors
        have hleads : Leads fs loader d parent.declared := ⟨ref, href, hload⟩
        refine ⟨some grandparent, ih parent.declared hleads hfresh hgrandparent ?_, hresolve⟩
        rw [Project.selfAndAncestors_of_ancestors hlevels] at hnew
        rw [List.map_append, List.append_assoc]
        exact hnew
    obtain ⟨supplied, hsearch, hresolve⟩ := habove
    rw [search_of_leads href hload hfresh]
    refine bind_eq_ok.2 ⟨supplied, hsearch, bind_eq_ok.2 ⟨parent, hresolve, ?_⟩⟩
    rw [if_pos hdesignates]

/-- What a search finds is the parent that the files have, and it is found if none of its levels is
at a location that was visited. -/
theorem search_eq_ok_some_iff (hvisited : (visited.map (·.location)).Nodup) :
    search fs loader policy visited d = .ok (some parent) ↔
      IsParent fs loader policy d parent ∧
        (visited.map (·.location) ++ parent.selfAndAncestors.map (·.location)).Nodup := by
  have hlocations (h : IsParent fs loader policy d parent) :
      parent.selfAndAncestors.map (·.location) =
        parent.selfAndAncestors.map (·.declared.location) :=
    List.map_congr_left h.location_eq
  constructor
  · intro hsearch
    have h := isParent_of_search hsearch
    rw [hlocations h]
    exact ⟨h, nodup_of_search hsearch hvisited⟩
  · rintro ⟨h, hnew⟩
    rw [hlocations h] at hnew
    exact search_of_isParent h hnew

/-- What looking for a parent at relative paths comes to. The search ends, with no more searches
nested in each other than there are regular files and one. If parent references lead back to a
location that was visited, the failure is the cycle up to the first location that repeats, the
descriptor found there first. The parent that is found is the one that the files have, and it is
found if no location comes up twice on the way to it. The child and all levels of the parent have
different paths then, and inheriting from it never finds that the parent is missing. -/
theorem locate_relativePath (fs : FileSystem) (loader : Loader) (policy : MissingProperty)
    (child : Descriptor) :
    searchWithin fs loader policy (fs.regularFiles.card + 1) (visits fs child []) child =
        .within (locate .relativePath fs loader policy child) ∧
      (∀ above, (child :: above).IsChain (Leads fs loader) →
        ¬((visits fs child above).map (·.location)).Nodup →
        ∃ before first between next beyond,
          visits fs child above = before ++ first :: between ++ next :: beyond ∧
          ((before ++ first :: between).map (·.location)).Nodup ∧
          first.location = next.location ∧
          locate .relativePath fs loader policy child =
            .error (.cyclic (next.artifactId :: (first :: between).reverse.map (·.artifactId)))) ∧
      ∀ parent,
        (locate .relativePath fs loader policy child = .ok (some parent) ↔
          IsParent fs loader policy child parent ∧
            (fs.canonical child.location :: parent.selfAndAncestors.map (·.location)).Nodup) ∧
        (locate .relativePath fs loader policy child = .ok (some parent) →
          (fs.WellFormed →
            ((child.location :: parent.selfAndAncestors.map (·.location)).map
              Path.normal).Nodup) ∧
          ∀ project ref,
            Project.inherit child (some parent) ≠ .error (.unresolvedParent project ref)) := by
  have hlocate : locate .relativePath fs loader policy child =
    search fs loader policy (visits fs child []) child := rfl
  have hroot : fs.ProperBranch (visits fs child []) := .singleton fs _
  rw [hlocate]
  refine ⟨?_, fun above hchain hrepeated ↦ ?_, fun parent ↦ ?_⟩
  · have hlength : (visits fs child []).length = 1 := rfl
    apply searchWithin_eq hroot
    omega
  · obtain ⟨above, next, beyond, rfl, hnodup, hold⟩ := exists_first_revisit hrepeated
    obtain ⟨first, hfirst, hlocation⟩ := List.mem_map.1 hold
    obtain ⟨before, between, hsplit⟩ := List.append_of_mem hfirst
    have hreached : (child :: (above ++ [next])).IsChain (Leads fs loader) :=
      (List.isChain_cons_split.1 hchain).1
    have herror : search fs loader policy (visits fs child []) child =
        .error (.cyclic (cycleOf (visits fs child above) next)) :=
      search_of_revisit hreached hnodup hold
    rw [hsplit] at hnodup herror
    refine ⟨before, first, between, next.visit, beyond.map (·.visit), ?_, hnodup, hlocation, ?_⟩
    · rw [visits_append, hsplit, List.map_cons]
    · rw [herror, cycleOf_append_cons hnodup hlocation]
      rfl
  · have hfound := @search_eq_ok_some_iff fs loader policy _ child parent hroot.nodup
    refine ⟨hfound, fun hparent ↦ ?_⟩
    obtain ⟨hchild, hnodup⟩ := hfound.1 hparent
    exact ⟨hchild.nodup_locations hnodup, hchild.inherit_ne_unresolvedParent⟩

/-! ### Parents next to their children -/

open Engine (twoFiles twoFilesEngine upperFile lowerFile upperProject)

/-- A descriptor that takes itself for the upper file, with a slash at the end of its path, and the
lower file for its parent. -/
def strayFile : Descriptor :=
  { (default : Descriptor) with
    artifactId := "stray", parentRef := some ⟨none, "b", none, some "b.json"⟩
    location := "/a.json/" }

theorem visits_twoFiles (above : List Descriptor) :
    visits twoFiles lowerFile above = ⟨"/b.json", "b"⟩ :: above.map (·.visit) ∧
      visits twoFiles strayFile above = ⟨"/a.json", "stray"⟩ :: above.map (·.visit) := by
  have hupper : twoFiles.canonical strayFile.location = "/a.json" :=
    Engine.canonical_slash
  have hlower : twoFiles.canonical lowerFile.location = "/b.json" :=
    Engine.canonical_twoFiles.2
  rw [visits, visits, hupper, hlower]
  exact ⟨rfl, rfl⟩

theorem locate_lowerFile :
    locate .relativePath twoFiles twoFilesEngine.loader .fail lowerFile =
      .ok (some upperProject) := by
  have href : lowerFile.parentRef = some ⟨none, "a", none, some "a.json"⟩ := rfl
  have hload : twoFilesEngine.loader.load twoFiles (Path.join lowerFile.baseDir "a.json") =
      .ok upperFile := Engine.load_upperFile
  have hnew : FileSystem.onBranch [⟨"/b.json", "b"⟩] upperFile.location = false := by decide
  have hgrandparent (visited : List Visit) :
      search twoFiles twoFilesEngine.loader .fail visited upperFile = .ok none := by
    rw [search_eq]
    rfl
  have hresolve : Project.resolve .fail upperFile none = .ok upperProject := rfl
  change search twoFiles twoFilesEngine.loader .fail (visits twoFiles lowerFile []) lowerFile = _
  rw [(visits_twoFiles []).1, List.map_nil, search_of_leads href hload hnew, hgrandparent]
  simp only [bind, Except.bind, hresolve]
  rfl

/-- In a row of three visits of which the last repeats the location of the first, nothing else is a
repetition. -/
theorem cyclic_of_three {x y z first next : Visit} {before between beyond : List Visit}
    (h : [x, y, z] = before ++ first :: between ++ next :: beyond)
    (hlocation : first.location = next.location) (hxy : x.location ≠ y.location)
    (hyz : y.location ≠ z.location) :
    next.artifactId :: (first :: between).reverse.map (·.artifactId) =
      [z.artifactId, y.artifactId, x.artifactId] := by
  match before, between with
  | [], [] =>
    obtain ⟨rfl, rfl, -⟩ : x = first ∧ y = next ∧ [z] = beyond := by simpa using h
    exact absurd hlocation hxy
  | [], [_] =>
    obtain ⟨rfl, rfl, rfl, -⟩ : x = first ∧ y = _ ∧ z = next ∧ [] = beyond := by simpa using h
    rfl
  | [_], [] =>
    obtain ⟨-, rfl, rfl, -⟩ : x = _ ∧ y = first ∧ z = next ∧ [] = beyond := by simpa using h
    exact absurd hlocation hyz
  | [], _ :: _ :: _ => simp at h
  | [_], _ :: _ => simp at h
  | _ :: _ :: _, _ =>
    have hlength := congrArg List.length h
    simp only [List.length_append, List.length_cons, List.length_nil] at hlength
    omega

/-- The parent of the lower file is found. The search from the stray descriptor comes back to where
it started, and reports what it finds there now. -/
theorem locate_twoFiles :
    (locate .relativePath twoFiles twoFilesEngine.loader .fail lowerFile =
        .ok (some upperProject) ∧
      IsParent twoFiles twoFilesEngine.loader .fail lowerFile upperProject) ∧
    locate .relativePath twoFiles twoFilesEngine.loader .fail strayFile =
      .error (.cyclic ["a", "b", "stray"]) := by
  obtain ⟨-, -, hfound⟩ := locate_relativePath twoFiles twoFilesEngine.loader .fail lowerFile
  obtain ⟨-, hcycle, -⟩ := locate_relativePath twoFiles twoFilesEngine.loader .fail strayFile
  refine ⟨⟨locate_lowerFile, ((hfound _).1.1 locate_lowerFile).1⟩, ?_⟩
  have hchain : [strayFile, lowerFile, upperFile].IsChain
      (Leads twoFiles twoFilesEngine.loader) :=
    .cons_cons ⟨_, rfl, Engine.load_lowerFile⟩
      (.cons_cons ⟨_, rfl, Engine.load_upperFile⟩ (.singleton _))
  have hvisits : visits twoFiles strayFile [lowerFile, upperFile] =
      [⟨"/a.json", "stray"⟩, ⟨"/b.json", "b"⟩, ⟨"/a.json", "a"⟩] :=
    (visits_twoFiles _).2
  have hrepeated :
      ¬((visits twoFiles strayFile [lowerFile, upperFile]).map (·.location)).Nodup := by
    rw [hvisits]
    decide
  obtain ⟨before, first, between, next, beyond, hsplit, hnodup, hlocation, herror⟩ :=
    hcycle _ hchain hrepeated
  rw [hvisits] at hsplit
  rw [herror, cyclic_of_three hsplit hlocation (by decide) (by decide)]

end ParentSource

end Reactor

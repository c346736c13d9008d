import Mathlib.Data.List.Infix
import Reactor.Proofs.Project.Steps

/-!
# Ancestors of resolved projects

The ancestors that a descriptor inherits from are an initial part of the levels of the supplied
parent. By induction on how projects come about, each ancestor of a resolved project is a resolved
project itself, whose own ancestors are the levels before it.
-/

namespace Reactor.Project

variable {policy : MissingProperty} {d : Descriptor} {ref : ParentRef}
  {project parent nearest ancestor : Project} {chain : List Project}

/-- The projects that resolution returns when every supplied parent is such a project, too. -/
inductive Resolved (policy : MissingProperty) : Project → Prop
  | root {d : Descriptor} {project : Project} (h : resolve policy d none = .ok project) :
    Resolved policy project
  | child {d : Descriptor} {parent project : Project} (hparent : Resolved policy parent)
    (h : resolve policy d (some parent) = .ok project) : Resolved policy project

theorem Resolved.exists_resolve (h : Resolved policy project) :
    ∃ d supplied, resolve policy d supplied = .ok project := by
  cases h with
  | root h => exact ⟨_, _, h⟩
  | child _ h => exact ⟨_, _, h⟩

theorem reverse_levels (project : Project) : project.levels.reverse = project.selfAndAncestors := by
  rw [levels, List.reverse_append, List.reverse_singleton, List.singleton_append, selfAndAncestors]

theorem reverse_selfAndAncestors (project : Project) :
    project.selfAndAncestors.reverse = project.levels := by
  rw [← reverse_levels, List.reverse_reverse]

theorem ancestorsFrom?_eq_some {candidates : List Project}
    (h : ancestorsFrom? ref candidates = some chain) :
    ∃ nearest rest, chain = nearest :: rest ∧ nearest.isReferencedBy ref = true ∧
      nearest :: rest <:+ candidates := by
  induction candidates with
  | nil => cases h
  | cons first rest ih =>
    rw [ancestorsFrom?] at h
    split at h
    case isTrue href =>
      obtain rfl := Option.some.inj h
      exact ⟨first, rest, rfl, href, List.suffix_refl _⟩
    case isFalse =>
      obtain ⟨nearest, others, hchain, href, hsuffix⟩ := ih h
      exact ⟨nearest, others, hchain, href, hsuffix.trans (List.suffix_cons first rest)⟩

/-- A descriptor without a reference has no ancestors. One with a reference has the levels of the
supplied parent up to one that the reference designates. -/
theorem ancestorsOf_eq_ok {supplied : Option Project} (h : ancestorsOf d supplied = .ok chain) :
    (d.parentRef = none ∧ chain = []) ∨
      ∃ ref parent before nearest, d.parentRef = some ref ∧ supplied = some parent ∧
        chain = before ++ [nearest] ∧ nearest.isReferencedBy ref = true ∧
        before ++ [nearest] <+: parent.levels := by
  unfold ancestorsOf at h
  cases href : d.parentRef with
  | none =>
    simp only [href, Except.ok.injEq] at h
    exact .inl ⟨rfl, h.symm⟩
  | some ref =>
    simp only [href] at h
    split at h
    case h_1 found hfound =>
      obtain ⟨parent, hparent, hfound⟩ := Option.bind_eq_some_iff.1 hfound
      obtain ⟨nearest, rest, rfl, hdesignates, hsuffix⟩ := ancestorsFrom?_eq_some hfound
      obtain rfl := Except.ok.inj h
      refine .inr ⟨ref, parent, rest.reverse, nearest, rfl, hparent, List.reverse_cons,
        hdesignates, ?_⟩
      have hinitial := List.reverse_prefix.2 hsuffix
      rw [List.reverse_cons, reverse_selfAndAncestors] at hinitial
      exact hinitial
    case h_2 => cases h

/-- A descriptor inherits from all levels of a supplied parent that its reference designates. -/
theorem ancestorsOf_of_isReferencedBy (href : d.parentRef = some ref)
    (hdesignates : parent.isReferencedBy ref = true) :
    ancestorsOf d (some parent) = .ok parent.levels := by
  have hnearest : ancestorsFrom? ref parent.selfAndAncestors = some parent.selfAndAncestors :=
    if_pos hdesignates
  unfold ancestorsOf
  simp only [href, Option.bind_some, hnearest, reverse_selfAndAncestors]

theorem selfAndAncestors_of_ancestors (hancestors : project.ancestors = nearest.levels) :
    project.selfAndAncestors = project :: nearest.selfAndAncestors := by
  simp [selfAndAncestors, hancestors, levels]

theorem initial_levels_iff {before : List Project} :
    before ++ [ancestor] <+: project.levels ↔
      (before = project.ancestors ∧ ancestor = project) ∨
        before ++ [ancestor] <+: project.ancestors := by
  rw [levels, List.prefix_concat_iff, List.append_singleton_inj]

/-- Every ancestor of a resolved project is a resolved project, and the levels before it are its
ancestors. -/
theorem Resolved.of_initial (h : Resolved policy project) {before : List Project}
    (hinitial : before ++ [ancestor] <+: project.levels) :
    Resolved policy ancestor ∧ ancestor.ancestors = before := by
  induction h generalizing before ancestor with
  | @root d project hresolve =>
    rcases initial_levels_iff.1 hinitial with ⟨rfl, rfl⟩ | hinitial
    · exact ⟨.root hresolve, rfl⟩
    · rcases ancestorsOf_eq_ok (ancestorsOf_of_resolve hresolve) with ⟨-, hnil⟩ | h
      · rw [hnil, List.prefix_nil] at hinitial
        simp at hinitial
      · obtain ⟨_, _, _, _, -, hnone, -⟩ := h
        cases hnone
  | @child d parent project hparent hresolve ih =>
    rcases initial_levels_iff.1 hinitial with ⟨rfl, rfl⟩ | hinitial
    · exact ⟨.child hparent hresolve, rfl⟩
    · rcases ancestorsOf_eq_ok (ancestorsOf_of_resolve hresolve) with ⟨-, hnil⟩ | h
      · rw [hnil, List.prefix_nil] at hinitial
        simp at hinitial
      · obtain ⟨ref, supplied, _, _, -, hsupplied, hchain, -, hlevels⟩ := h
        obtain rfl := Option.some.inj hsupplied
        exact ih (hinitial.trans (hchain ▸ hlevels))

/-- The ancestors of a project below a resolved parent are all levels of the nearest one. -/
theorem exists_nearest_of_ancestorsOf (hparent : Resolved policy parent)
    (h : ancestorsOf d (some parent) = .ok chain) (href : d.parentRef = some ref) :
    ∃ nearest, Resolved policy nearest ∧ nearest.isReferencedBy ref = true ∧
      chain = nearest.levels := by
  rcases ancestorsOf_eq_ok h with ⟨hnone, -⟩ | ⟨ref', supplied, before, nearest, href', hsupplied,
    rfl, hdesignates, hinitial⟩
  · rw [href] at hnone
    cases hnone
  · obtain rfl := Option.some.inj hsupplied
    obtain rfl := Option.some.inj (href.symm.trans href')
    obtain ⟨hnearest, rfl⟩ := hparent.of_initial hinitial
    exact ⟨nearest, hnearest, hdesignates, rfl⟩

/-! ## Failures of inheritance -/

theorem failsOnly_ancestorsOf {P : Failure → Prop} {supplied : Option Project}
    (h : ∀ ref, d.parentRef = some ref → P (.unresolvedParent d.artifactId ref)) :
    FailsOnly P (ancestorsOf d supplied) := by
  unfold ancestorsOf
  cases href : d.parentRef with
  | none => exact .ok []
  | some ref =>
    simp only
    split
    · exact .ok _
    · exact .error (h ref href)

/-- Inheritance fails only if the parent is not at hand or if the coordinates repeat. -/
theorem failsOnly_inherit {P : Failure → Prop} {supplied : Option Project}
    (hunresolved : ∀ ref, d.parentRef = some ref → P (.unresolvedParent d.artifactId ref))
    (hcyclic : ∀ names, P (.cyclic names)) : FailsOnly P (inherit d supplied) := by
  unfold inherit
  refine (failsOnly_ancestorsOf hunresolved).bind fun chain _ ↦ ?_
  simp only
  split
  · exact .ok _
  · exact .error (hcyclic _)

end Reactor.Project

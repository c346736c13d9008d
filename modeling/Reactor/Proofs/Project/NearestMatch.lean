import Reactor.Proofs.Project.EffectiveProperties
import Reactor.Proofs.Project.Obtained

/-!
# The ancestor that a reference designates

A descriptor is resolved below the nearest project, among the supplied parent and its ancestors,
that its reference designates. The levels in between leave no trace: the descriptor could as well
have been given the designated project itself. This rests on the chain of ancestors being in order,
since the levels above the designated project are read off the supplied parent in one case, and off
the designated project in the other.
-/

namespace Reactor.Project

variable {policy : MissingProperty} {d : Descriptor} {ref : ParentRef}
  {supplied supplied' : Option Project} {parent nearest : Project}
  {candidates nearer further : List Project}

/-! ## The search for the designated project -/

theorem ancestorsFrom?_append (h : ∀ candidate ∈ nearer, candidate.isReferencedBy ref = false) :
    ancestorsFrom? ref (nearer ++ further) = ancestorsFrom? ref further := by
  induction nearer with
  | nil => rfl
  | cons first rest ih =>
    have hfirst : first.isReferencedBy ref = false := h first List.mem_cons_self
    have hrest := ih fun candidate hcandidate ↦ h candidate (List.mem_cons_of_mem _ hcandidate)
    rw [List.cons_append, ancestorsFrom?, hfirst, if_neg Bool.false_ne_true, hrest]

theorem ancestorsFrom?_eq_none (h : candidates.find? (·.isReferencedBy ref) = none) :
    ancestorsFrom? ref candidates = none := by
  have hnone : ∀ candidate ∈ candidates, candidate.isReferencedBy ref = false := by
    simpa using List.find?_eq_none.1 h
  have hall : ancestorsFrom? ref (candidates ++ []) = ancestorsFrom? ref [] :=
    ancestorsFrom?_append hnone
  rw [List.append_nil] at hall
  exact hall

/-- The candidates from the first designated one on are its own levels, if the candidates are those
of a project whose chain of ancestors is in order. -/
theorem ancestorsFrom?_selfAndAncestors (hparent : parent.InOrder)
    (h : parent.selfAndAncestors.find? (·.isReferencedBy ref) = some nearest) :
    ancestorsFrom? ref parent.selfAndAncestors = some nearest.selfAndAncestors := by
  obtain ⟨hdesignates, nearer, further, hsplit, hnearer⟩ := List.find?_eq_some_iff_append.1 h
  have hinitial : further.reverse ++ [nearest] <+: parent.levels := by
    rw [← reverse_selfAndAncestors, hsplit, List.reverse_append, List.reverse_cons]
    exact List.prefix_append _ _
  have hancestors : nearest.ancestors = further.reverse := hparent.initial _ _ hinitial
  have hself : nearest.selfAndAncestors = nearest :: further := by
    rw [selfAndAncestors, hancestors, List.reverse_reverse]
  rw [hsplit, ancestorsFrom?_append (by simpa using hnearer), ancestorsFrom?, if_pos hdesignates,
    hself]

theorem ancestorsOf_of_find? (hparent : parent.InOrder) (href : d.parentRef = some ref)
    (h : parent.selfAndAncestors.find? (·.isReferencedBy ref) = some nearest) :
    ancestorsOf d (some parent) = .ok nearest.levels := by
  have hchain := ancestorsFrom?_selfAndAncestors hparent h
  unfold ancestorsOf
  simp only [href, Option.bind_some, hchain, reverse_selfAndAncestors]

theorem ancestorsOf_of_find?_eq_none (href : d.parentRef = some ref)
    (h : parent.selfAndAncestors.find? (·.isReferencedBy ref) = none) :
    ancestorsOf d (some parent) = .error (.unresolvedParent d.artifactId ref) := by
  have hnone := ancestorsFrom?_eq_none h
  unfold ancestorsOf
  simp only [href, Option.bind_some, hnone]

/-! ## Resolution below it -/

/-- Resolution depends on the supplied parent through the chain of ancestors only. -/
theorem resolve_congr (h : ancestorsOf d supplied = ancestorsOf d supplied') :
    resolve policy d supplied = resolve policy d supplied' := by
  rw [resolve, resolve, inherit, inherit, h]

/-- Only the designated ancestor counts. A descriptor that refers to no parent is resolved as if
none was supplied. One whose reference designates none of the levels of the supplied parent has an
unresolved parent. Otherwise it is resolved as if the nearest designated level was supplied, and
that level and its own ancestors are its ancestors. -/
theorem resolve_below_designated (policy : MissingProperty) (d : Descriptor)
    (hparent : Obtained parent) :
    (d.parentRef = none → resolve policy d (some parent) = resolve policy d none) ∧
      ∀ ref, d.parentRef = some ref →
        (parent.selfAndAncestors.find? (·.isReferencedBy ref) = none →
          resolve policy d (some parent) = .error (.unresolvedParent d.artifactId ref)) ∧
        ∀ nearest, parent.selfAndAncestors.find? (·.isReferencedBy ref) = some nearest →
          resolve policy d (some parent) = resolve policy d (some nearest) ∧
          ∀ project, resolve policy d (some parent) = .ok project →
            project.ancestors = nearest.ancestors ++ [nearest] := by
  refine ⟨fun hnone ↦ ?_, fun ref href ↦ ⟨fun hfind ↦ ?_, fun nearest hfind ↦ ⟨?_, ?_⟩⟩⟩
  · apply resolve_congr
    unfold ancestorsOf
    rw [hnone]
  · rw [resolve, inherit, ancestorsOf_of_find?_eq_none href hfind]
    rfl
  · have hdesignates := List.find?_some hfind
    apply resolve_congr
    rw [ancestorsOf_of_find? hparent.inOrder href hfind,
      ancestorsOf_of_isReferencedBy href hdesignates]
  · intro project hproject
    have hchain := ancestorsOf_of_resolve hproject
    rw [ancestorsOf_of_find? hparent.inOrder href hfind] at hchain
    exact (Except.ok.inj hchain).symm

/-- A project below the leaf that refers to the root. -/
def templateStray : Descriptor :=
  { (default : Descriptor) with
    artifactId := "stray"
    parentRef := some ⟨none, "root", none, none⟩
    location := "/w/leaf/stray/project.json" }

/-- The declaration of the leaf in between does not reach the project below it. -/
theorem resolve_templateStray :
    Obtained templateLeafProject ∧
      templateLeafProject.selfAndAncestors.find? (·.isReferencedBy ⟨none, "root", none, none⟩) =
        some templateRootProject ∧
      resolve .fail templateStray (some templateLeafProject) =
        resolve .fail templateStray (some templateRootProject) ∧
      ∃ project, resolve .fail templateStray (some templateLeafProject) = .ok project ∧
        project.effectiveProperties.get? "base" = some "/srv" ∧
        project.ancestors = [templateRootProject] := by
  have hroot : Obtained templateRootProject :=
    .resolve (fun parent hparent ↦ absurd hparent (by simp)) resolve_templateRoot
  have hleaf : Obtained templateLeafProject :=
    .resolve (fun parent hparent ↦ Option.some.inj hparent ▸ hroot) resolve_templateLeaf
  have hfind : templateLeafProject.selfAndAncestors.find?
      (·.isReferencedBy ⟨none, "root", none, none⟩) = some templateRootProject := rfl
  have hstray : resolve .fail templateStray (some templateLeafProject) = .ok _ := rfl
  obtain ⟨-, hbelow⟩ := resolve_below_designated .fail templateStray hleaf
  obtain ⟨-, hdesignated⟩ := hbelow _ rfl
  obtain ⟨hsame, hancestors⟩ := hdesignated _ hfind
  exact ⟨hleaf, hfind, hsame, _, hstray, rfl, hancestors _ hstray⟩

end Reactor.Project

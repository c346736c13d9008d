import Mathlib.Data.List.Chain
import Reactor.Proofs.Placeholder
import Reactor.Proofs.Project.Ancestors

/-!
# Chains of ancestors in every state

Projects come about by inheritance, by the expansion of their texts, by the merging of plugins, and
by full resolution, in any order and with any project at hand as the supplied parent. Expanding
texts rewrites the coordinates that parent references are compared with, but it never touches the
ancestors, which are kept as they were when inheritance compared them. So every chain of ancestors
stays in order, however its projects were obtained.
-/

namespace Reactor.Project

variable {policy : MissingProperty} {d : Descriptor} {supplied : Option Project}
  {project result parent ancestor level : Project} {before : List Project}

/-- The projects that any sequence of steps leads to. A supplied parent is such a project itself. -/
inductive Obtained : Project → Prop
  | inherit {d : Descriptor} {supplied : Option Project} {project : Project}
    (hsupplied : ∀ parent, supplied = some parent → Obtained parent)
    (h : inherit d supplied = .ok project) : Obtained project
  | resolve {policy : MissingProperty} {d : Descriptor} {supplied : Option Project}
    {project : Project} (hsupplied : ∀ parent, supplied = some parent → Obtained parent)
    (h : resolve policy d supplied = .ok project) : Obtained project
  | substitute {policy : MissingProperty} {project result : Project} (hproject : Obtained project)
    (h : project.substitute policy = .ok result) : Obtained result
  | applyPlugins {policy : MissingProperty} {project result : Project} (hproject : Obtained project)
    (h : project.applyPlugins policy = .ok result) : Obtained result

theorem Obtained.of_inherit_none (h : Project.inherit d none = .ok project) : Obtained project :=
  .inherit (fun parent hparent ↦ absurd hparent (by simp)) h

theorem Obtained.of_inherit_some (hparent : Obtained parent)
    (h : Project.inherit d (some parent) = .ok project) : Obtained project :=
  .inherit (fun _ hsupplied ↦ Option.some.inj hsupplied ▸ hparent) h

/-! ## Expansion -/

/-- What the expansion of texts leaves as it is. A group id changes only if the descriptor states
it, and only if it has a placeholder. -/
structure ExpansionOf (project result : Project) : Prop where
  declared : result.declared = project.declared
  ancestors : result.ancestors = project.ancestors
  artifactId : result.artifactId = project.artifactId
  inheritedGroupId : project.declared.groupId = none → result.groupId = project.groupId
  plainGroupId : ∀ text, project.declared.groupId = some text → Placeholder.IsPlain text →
    project.groupId = some text → result.groupId = some text

theorem ExpansionOf.trans {middle : Project} (h : ExpansionOf project middle)
    (h' : ExpansionOf middle result) : ExpansionOf project result where
  declared := h'.declared.trans h.declared
  ancestors := h'.ancestors.trans h.ancestors
  artifactId := h'.artifactId.trans h.artifactId
  inheritedGroupId hnone :=
    (h'.inheritedGroupId (h.declared ▸ hnone)).trans (h.inheritedGroupId hnone)
  plainGroupId text hstated hplain hgroupId :=
    h'.plainGroupId text (h.declared ▸ hstated) hplain (h.plainGroupId text hstated hplain hgroupId)

theorem expand_of_plain {text : String} (h : Placeholder.IsPlain text) (scope : Project)
    (policy : MissingProperty) : scope.expand policy text = .ok text := by
  unfold expand
  cases policy with
  | fail => rw [Placeholder.substitute_of_plain h]; rfl
  | keep => rw [Placeholder.substituteLenient_of_plain h]; rfl

theorem expansionOf_of_substitute (h : project.substitute policy = .ok result) :
    ExpansionOf project result := by
  obtain ⟨scope, _, _, _, hscope, -, -, -, rfl⟩ := substitute_eq_ok_iff.1 h
  obtain ⟨groupId, version, hgroupId, -, rfl⟩ := substituteCoordinates_eq_ok_iff.1 hscope
  refine ⟨rfl, rfl, rfl, fun hnone ↦ ?_, fun text hstated hplain _ ↦ ?_⟩
  · rw [hnone] at hgroupId
    obtain rfl := Except.ok.inj hgroupId
    rfl
  · rw [hstated] at hgroupId
    obtain ⟨value, hvalue, rfl⟩ := map_eq_ok.1 hgroupId
    rw [expand_of_plain hplain] at hvalue
    obtain rfl := Except.ok.inj hvalue
    rfl

theorem expansionOf_of_applyPlugins (h : project.applyPlugins policy = .ok result) :
    ExpansionOf project result := by
  obtain ⟨plugins, -, rfl⟩ := applyPlugins_eq_ok_iff.1 h
  exact ⟨rfl, rfl, rfl, fun _ ↦ rfl, fun _ _ _ hgroupId ↦ hgroupId⟩

/-- Induction on how a project was obtained. Only two kinds of steps matter: inheritance, which
builds the chain of ancestors, and expansion, which leaves it alone. -/
theorem Obtained.rec_steps {motive : Project → Prop}
    (inherit : ∀ d supplied project,
      (∀ parent, supplied = some parent → Obtained parent ∧ motive parent) →
      Project.inherit d supplied = .ok project → motive project)
    (expansion : ∀ project result, ExpansionOf project result → motive project → motive result)
    (h : Obtained project) : motive project := by
  induction h with
  | inherit hsupplied h ih =>
    exact inherit _ _ _ (fun parent hparent ↦ ⟨hsupplied parent hparent, ih parent hparent⟩) h
  | resolve hsupplied h ih =>
    obtain ⟨inherited, substituted, hinherited, hsubstituted, happlied⟩ := resolve_eq_ok_iff.1 h
    have hsteps := (expansionOf_of_substitute hsubstituted).trans
      (expansionOf_of_applyPlugins happlied)
    refine expansion _ _ hsteps (inherit _ _ _ (fun parent hparent ↦ ?_) hinherited)
    exact ⟨hsupplied parent hparent, ih parent hparent⟩
  | substitute _ h ih => exact expansion _ _ (expansionOf_of_substitute h) ih
  | applyPlugins _ h ih => exact expansion _ _ (expansionOf_of_applyPlugins h) ih

/-! ## Chains in order -/

/-- Whether a project has a parent reference that designates another one. -/
def Designates (upper lower : Project) : Prop :=
  ∃ ref, lower.declared.parentRef = some ref ∧ upper.isReferencedBy ref = true

/-- A chain of ancestors in order: there is one exactly below a parent reference, each level has the
levels before it as its own ancestors, and each level is designated by the next one. -/
structure InOrder (project : Project) : Prop where
  root : project.ancestors = [] ↔ project.declared.parentRef = none
  initial : ∀ before ancestor, before ++ [ancestor] <+: project.levels → ancestor.ancestors = before
  designated : project.levels.IsChain Designates

/-- What inheritance from projects in order leads to is in order. -/
theorem inOrder_of_inherit (hsupplied : ∀ parent, supplied = some parent → parent.InOrder)
    (h : inherit d supplied = .ok project) : project.InOrder := by
  obtain ⟨chain, hchain, -, rfl⟩ := inherit_eq_ok_iff.1 h
  rcases ancestorsOf_eq_ok hchain with ⟨hnone, rfl⟩ | ⟨ref, parent, before, nearest, href, hparent,
    rfl, hdesignates, hinitial⟩
  · have hroot : (extend d []).ancestors = [] := rfl
    refine ⟨iff_of_true hroot hnone, fun before ancestor hbefore ↦ ?_, List.isChain_singleton _⟩
    rcases initial_levels_iff.1 hbefore with ⟨rfl, rfl⟩ | hbefore
    · rfl
    · exact absurd (List.prefix_nil.1 (hroot ▸ hbefore)) (by simp)
  · have hparent := hsupplied parent hparent
    refine ⟨?_, fun above ancestor habove ↦ ?_, ?_⟩
    · have hbelow : (extend d (before ++ [nearest])).ancestors ≠ [] := by simp [extend]
      have hstated : (extend d (before ++ [nearest])).declared.parentRef ≠ none := by
        simp [extend, href]
      exact iff_of_false hbelow hstated
    · rcases initial_levels_iff.1 habove with ⟨rfl, rfl⟩ | habove
      · rfl
      · exact hparent.initial above ancestor (habove.trans hinitial)
    · obtain ⟨below, hbelow⟩ := hinitial
      have hlevels := hparent.designated
      rw [← hbelow] at hlevels
      refine hlevels.left_of_append.append (List.isChain_singleton _) ?_
      intro upper hupper lower hlower
      obtain rfl : nearest = upper := by simpa using hupper
      obtain rfl := Option.some.inj hlower
      exact ⟨ref, href, hdesignates⟩

theorem InOrder.expansion (h : project.InOrder) (hexpansion : ExpansionOf project result) :
    result.InOrder := by
  have hlevels : result.levels = project.ancestors ++ [result] := by
    rw [levels, hexpansion.ancestors]
  refine ⟨?_, fun before ancestor hbefore ↦ ?_, ?_⟩
  · rw [hexpansion.ancestors, hexpansion.declared]
    exact h.root
  · rcases initial_levels_iff.1 hbefore with ⟨rfl, rfl⟩ | hbefore
    · rfl
    · rw [hexpansion.ancestors] at hbefore
      exact h.initial before ancestor (initial_levels_iff.2 (.inr hbefore))
  · obtain ⟨hancestors, -, hlast⟩ := List.isChain_append.1 h.designated
    rw [hlevels]
    refine hancestors.append (List.isChain_singleton _) ?_
    intro upper hupper lower hlower
    obtain rfl := Option.some.inj hlower
    obtain ⟨ref, href, hdesignates⟩ := hlast upper hupper project rfl
    exact ⟨ref, hexpansion.declared ▸ href, hdesignates⟩

theorem Obtained.inOrder (h : Obtained project) : project.InOrder := by
  refine Obtained.rec_steps (fun d supplied project hsupplied h ↦ ?_)
    (fun project result hexpansion ih ↦ ?_) h
  · exact inOrder_of_inherit (fun parent hparent ↦ (hsupplied parent hparent).2) h
  · exact ih.expansion hexpansion

/-- Every ancestor was obtained in some state. -/
theorem Obtained.of_mem_ancestors (h : Obtained project) :
    ∀ ancestor ∈ project.ancestors, Obtained ancestor := by
  refine Obtained.rec_steps
    (motive := fun project ↦ ∀ ancestor ∈ project.ancestors, Obtained ancestor)
    (fun d supplied project hsupplied h ↦ ?_) (fun project result hexpansion ih ↦ ?_) h
  · intro ancestor hancestor
    obtain ⟨chain, hchain, -, rfl⟩ := inherit_eq_ok_iff.1 h
    rcases ancestorsOf_eq_ok hchain with ⟨-, rfl⟩ | ⟨ref, parent, before, nearest, -, hparent, rfl,
      -, hinitial⟩
    · cases hancestor
    · obtain ⟨hobtained, ih⟩ := hsupplied parent hparent
      rcases List.mem_append.1 (hinitial.subset hancestor) with hancestor | hself
      · exact ih ancestor hancestor
      · rw [List.mem_singleton.1 hself]
        exact hobtained
  · rw [hexpansion.ancestors]
    exact ih

theorem Obtained.of_mem_levels (h : Obtained project) (hlevel : level ∈ project.levels) :
    Obtained level := by
  rcases List.mem_append.1 hlevel with hlevel | hlevel
  · exact h.of_mem_ancestors level hlevel
  · rw [List.mem_singleton.1 hlevel]
    exact h

/-- A project inherits from all levels of another one, which are levels of the supplied parent, or
from none. -/
theorem exists_nearest_of_inherit (hsupplied : ∀ parent, supplied = some parent → Obtained parent)
    (h : inherit d supplied = .ok project) :
    project = extend d [] ∨ ∃ parent nearest, supplied = some parent ∧ Obtained nearest ∧
      nearest.levels <+: parent.levels ∧ project = extend d nearest.levels := by
  obtain ⟨chain, hchain, -, rfl⟩ := inherit_eq_ok_iff.1 h
  rcases ancestorsOf_eq_ok hchain with ⟨-, rfl⟩ | ⟨_, parent, before, nearest, -, hparent, rfl, -,
    hinitial⟩
  · exact .inl rfl
  · have hobtained := hsupplied parent hparent
    have hnearest : nearest ∈ parent.levels := hinitial.subset (by simp)
    obtain rfl := hobtained.inOrder.initial before nearest hinitial
    exact .inr ⟨parent, nearest, hparent, hobtained.of_mem_levels hnearest, hinitial, rfl⟩

theorem forall_mem_levels {P : Project → Prop} :
    (∀ level ∈ project.levels, P level) ↔ (∀ level ∈ project.ancestors, P level) ∧ P project := by
  simp only [levels, List.forall_mem_append, List.forall_mem_singleton]

/-- Induction on how a project was obtained, along its ancestors: it was extended from the levels of
a project that was obtained, or from none, and its texts and plugins were expanded afterwards. -/
theorem Obtained.rec_nearest {motive : Project → Prop} (root : ∀ d, motive (extend d []))
    (child : ∀ d nearest, Obtained nearest → motive nearest → motive (extend d nearest.levels))
    (substitute : ∀ policy project result, motive project →
      project.substitute policy = .ok result → motive result)
    (applyPlugins : ∀ policy project result, motive project →
      project.applyPlugins policy = .ok result → motive result)
    (h : Obtained project) : motive project := by
  -- Any level of the supplied parent may be inherited from, so all of them are carried along.
  suffices hlevels : ∀ level ∈ project.levels, motive level from (forall_mem_levels.1 hlevels).2
  have hinherit {d : Descriptor} {supplied : Option Project} {project : Project}
      (hsupplied : ∀ parent, supplied = some parent → Obtained parent)
      (ih : ∀ parent, supplied = some parent → ∀ level ∈ parent.levels, motive level)
      (h : Project.inherit d supplied = .ok project) : ∀ level ∈ project.levels, motive level := by
    rcases exists_nearest_of_inherit hsupplied h with rfl | ⟨parent, nearest, hparent, hnearest,
      hinitial, rfl⟩
    · exact forall_mem_levels.2 ⟨fun level hlevel ↦ absurd hlevel List.not_mem_nil, root d⟩
    · have hlevels : ∀ level ∈ nearest.levels, motive level :=
        fun level hlevel ↦ ih parent hparent level (hinitial.subset hlevel)
      exact forall_mem_levels.2
        ⟨hlevels, child d nearest hnearest (forall_mem_levels.1 hlevels).2⟩
  have hsubstitute {policy : MissingProperty} {project result : Project}
      (ih : ∀ level ∈ project.levels, motive level) (h : project.substitute policy = .ok result) :
      ∀ level ∈ result.levels, motive level := by
    have ⟨hancestors, hproject⟩ := forall_mem_levels.1 ih
    rw [forall_mem_levels, (expansionOf_of_substitute h).ancestors]
    exact ⟨hancestors, substitute _ _ _ hproject h⟩
  have happly {policy : MissingProperty} {project result : Project}
      (ih : ∀ level ∈ project.levels, motive level) (h : project.applyPlugins policy = .ok result) :
      ∀ level ∈ result.levels, motive level := by
    have ⟨hancestors, hproject⟩ := forall_mem_levels.1 ih
    rw [forall_mem_levels, (expansionOf_of_applyPlugins h).ancestors]
    exact ⟨hancestors, applyPlugins _ _ _ hproject h⟩
  induction h with
  | inherit hsupplied h ih => exact hinherit hsupplied ih h
  | resolve hsupplied h ih =>
    obtain ⟨inherited, substituted, hinherited, hsubstituted, happlied⟩ := resolve_eq_ok_iff.1 h
    exact happly (hsubstitute (hinherit hsupplied ih hinherited) hsubstituted) happlied
  | substitute _ h ih => exact hsubstitute ih h
  | applyPlugins _ h ih => exact happly ih h

/-- However a project was obtained: it has ancestors exactly if its descriptor refers to a parent,
the ancestors of the ancestor at an index are those before the index, and each of its levels is
designated by the parent reference of the next one. -/
theorem ancestors_of_obtained (h : Obtained project) :
    (project.ancestors = [] ↔ project.declared.parentRef = none) ∧
      (∀ index ancestor, project.ancestors[index]? = some ancestor →
        ancestor.ancestors = project.ancestors.take index) ∧
      project.levels.IsChain fun upper lower ↦
        ∃ ref, lower.declared.parentRef = some ref ∧ upper.isReferencedBy ref = true := by
  obtain ⟨hroot, hinitial, hdesignated⟩ := h.inOrder
  refine ⟨hroot, fun index ancestor hancestor ↦ ?_, hdesignated⟩
  refine hinitial _ ancestor (initial_levels_iff.2 (.inr ?_))
  rw [← Option.toList_some ancestor, ← hancestor, ← List.take_add_one]
  exact List.take_prefix _ _

def revisionRoot : Descriptor :=
  { (default : Descriptor) with
    artifactId := "root"
    properties := SortedMap.ofList [("revision", "1")]
    location := "/w/project.json" }

/-- A project whose version is the property that it inherits. -/
def revisionMiddle : Descriptor :=
  { (default : Descriptor) with
    artifactId := "middle"
    version := some "$\x7brevision\x7d"
    parentRef := some ⟨none, "root", none, none⟩
    location := "/w/middle/project.json" }

def revisionLeaf : Descriptor :=
  { (default : Descriptor) with
    artifactId := "leaf"
    parentRef := some ⟨none, "middle", some "1", none⟩
    location := "/w/middle/leaf/project.json" }

def rawMiddle : Project :=
  extend revisionMiddle [extend revisionRoot []]

def expandedMiddle : Project :=
  { rawMiddle with version := some "1" }

theorem ancestors_of_revisionLeaf :
    ∃ project : Project, Obtained project ∧
      project.ancestors.map (·.version) = [none, some "1"] ∧
      (project.ancestors = [] ↔ project.declared.parentRef = none) ∧
      (∀ index ancestor, project.ancestors[index]? = some ancestor →
        ancestor.ancestors = project.ancestors.take index) ∧
      project.levels.IsChain fun upper lower ↦
        ∃ ref, lower.declared.parentRef = some ref ∧ upper.isReferencedBy ref = true := by
  have hroot : inherit revisionRoot none = .ok (extend revisionRoot []) := rfl
  have hmiddle : inherit revisionMiddle (some (extend revisionRoot [])) = .ok rawMiddle := rfl
  have hexpanded : rawMiddle.substitute .fail = .ok expandedMiddle := by rfl
  have hleaf : inherit revisionLeaf (some expandedMiddle) =
    .ok (extend revisionLeaf [extend revisionRoot [], expandedMiddle]) := rfl
  have hobtained := (((Obtained.of_inherit_none hroot).of_inherit_some hmiddle).substitute
    hexpanded).of_inherit_some hleaf
  exact ⟨_, hobtained, rfl, ancestors_of_obtained hobtained⟩

end Reactor.Project

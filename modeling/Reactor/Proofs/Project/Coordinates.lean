import Mathlib.Data.List.Nodup
import Mathlib.Data.List.TakeWhile
import Reactor.Proofs.Project.Failures
import Reactor.Proofs.Project.Obtained

/-!
# Coordinates on a chain of ancestors

A project and its ancestors are told apart by group id and artifact id. Inheritance refuses a
project whose coordinates are those of an ancestor, but it compares a stated group id as it is
written, and the ancestors with their group ids expanded. Expansion comes later. So coordinates
repeat on a chain only where expansion has changed a group id into that of an ancestor.
-/

namespace Reactor.Project

variable {policy : MissingProperty} {d : Descriptor} {supplied : Option Project}
  {project level : Project} {chain levels : List Project} {β : Type}

/-- What tells a project apart from its ancestors. -/
def identity (project : Project) : Option String × String :=
  (project.groupId, project.artifactId)

/-- What inheritance compares with the ancestors: the group id as the descriptor states it, or else
the one of the nearest ancestor. -/
def writtenIdentity (d : Descriptor) (chain : List Project) : Option String × String :=
  (d.groupId.or (chain.getLast?.bind (·.groupId)), d.artifactId)

theorem repeatedFrom_eq_nil_iff {groupId : Option String} {artifactId : String} :
    repeatedFrom groupId artifactId chain = [] ↔ (groupId, artifactId) ∉ chain.map identity := by
  unfold repeatedFrom
  rw [List.dropWhile_eq_nil_iff, List.mem_map, not_exists]
  refine forall_congr' fun ancestor ↦ ?_
  simp [identity, imp_iff_not_or, Prod.ext_iff, or_comm]

/-- No project was obtained whose identity as written is that of an ancestor. -/
theorem Obtained.writtenIdentity_notMem (h : Obtained project) :
    writtenIdentity project.declared project.ancestors ∉ project.ancestors.map identity := by
  refine Obtained.rec_steps (motive := fun project ↦
    writtenIdentity project.declared project.ancestors ∉ project.ancestors.map identity)
    (fun d supplied project _ h ↦ ?_) (fun project result hexpansion ih ↦ ?_) h
  · obtain ⟨chain, -, hnew, rfl⟩ := inherit_eq_ok_iff.1 h
    exact repeatedFrom_eq_nil_iff.1 hnew
  · rw [hexpansion.declared, hexpansion.ancestors]
    exact ih

/-- What the coordinates of a project are if expansion has not changed its group id. -/
structure Unchanged (project : Project) : Prop where
  artifactId : project.artifactId = project.declared.artifactId
  inherited : project.declared.groupId = none →
    project.groupId = project.ancestors.getLast?.bind (·.groupId)
  plain : ∀ text, project.declared.groupId = some text → Placeholder.IsPlain text →
    project.groupId = some text

theorem Obtained.unchanged (h : Obtained project) : project.Unchanged := by
  refine Obtained.rec_steps (fun d supplied project _ h ↦ ?_)
    (fun project result hexpansion ih ↦ ?_) h
  · obtain ⟨chain, -, -, rfl⟩ := inherit_eq_ok_iff.1 h
    refine ⟨rfl, fun hnone ↦ ?_, fun text hstated _ ↦ ?_⟩
    · have hnone : d.groupId = none := hnone
      simp [extend, hnone]
    · have hstated : d.groupId = some text := hstated
      simp [extend, hstated]
  · refine ⟨?_, fun hnone ↦ ?_, fun text hstated hplain ↦ ?_⟩
    · rw [hexpansion.declared, hexpansion.artifactId, ih.artifactId]
    · rw [hexpansion.declared] at hnone
      rw [hexpansion.inheritedGroupId hnone, hexpansion.ancestors, ih.inherited hnone]
    · rw [hexpansion.declared] at hstated
      exact hexpansion.plainGroupId text hstated hplain (ih.plain text hstated hplain)

/-- A project has the identity that was written unless expansion has changed its group id. -/
theorem Obtained.identity_eq (h : Obtained project)
    (hkept : ∀ text, project.declared.groupId = some text → project.groupId = some text) :
    project.identity = writtenIdentity project.declared project.ancestors := by
  rw [identity, writtenIdentity, h.unchanged.artifactId]
  cases hstated : project.declared.groupId with
  | none => rw [h.unchanged.inherited hstated, Option.none_or]
  | some text => rw [hkept text hstated, Option.some_or]

/-- On a chain in order, no two levels share a property exactly if no level shares it with an
ancestor of its own. -/
theorem nodup_map_iff_of_initial {f : Project → β} (h : ∀ before ancestor,
    before ++ [ancestor] <+: levels → ancestor.ancestors = before) :
    (levels.map f).Nodup ↔ ∀ level ∈ levels, f level ∉ level.ancestors.map f := by
  induction levels using List.reverseRecOn with
  | nil => simp
  | append_singleton levels level ih =>
    have hlast : level.ancestors = levels := h levels level (List.prefix_refl _)
    have hinitial := ih fun before ancestor hbefore ↦
      h before ancestor (hbefore.trans (List.prefix_append _ _))
    rw [List.map_append, List.map_singleton, List.nodup_append', List.disjoint_singleton, hinitial,
      List.forall_mem_append, List.forall_mem_singleton, hlast]
    simp

/-- The coordinates on a chain are pairwise distinct exactly if no stated group id was expanded into
that of an ancestor with the same artifact id. -/
theorem Obtained.nodup_identity_iff (h : Obtained project) :
    (project.levels.map identity).Nodup ↔
      ∀ level ∈ project.levels, ∀ text, level.declared.groupId = some text →
        level.groupId ≠ some text → level.identity ∉ level.ancestors.map identity := by
  rw [nodup_map_iff_of_initial h.inOrder.initial]
  refine ⟨fun hnew level hlevel _ _ _ ↦ hnew level hlevel, fun hchanged level hlevel ↦ ?_⟩
  have hobtained := h.of_mem_levels hlevel
  by_cases hkept : ∀ text, level.declared.groupId = some text → level.groupId = some text
  · rw [hobtained.identity_eq hkept]
    exact hobtained.writtenIdentity_notMem
  · push Not at hkept
    obtain ⟨text, hstated, hne⟩ := hkept
    exact hchanged level hlevel text hstated hne

/-- Without placeholders in group ids, the coordinates on a chain are pairwise distinct. -/
theorem Obtained.nodup_identity_of_plain (h : Obtained project)
    (hplain : ∀ level ∈ project.levels, ∀ text, level.declared.groupId = some text →
      Placeholder.IsPlain text) : (project.levels.map identity).Nodup := by
  rw [h.nodup_identity_iff]
  intro level hlevel text hstated hchanged
  have hkept := (h.of_mem_levels hlevel).unchanged.plain text hstated
  exact absurd (hkept (hplain level hlevel text hstated)) hchanged

/-! ## Rejected coordinates -/

theorem exists_inherit_cyclic_iff :
    (∃ names, inherit d supplied = .error (.cyclic names)) ↔
      ∃ chain, ancestorsOf d supplied = .ok chain ∧
        writtenIdentity d chain ∈ chain.map identity := by
  unfold inherit
  cases hchain : ancestorsOf d supplied with
  | error failure =>
    have hfailure : ∀ names, failure ≠ .cyclic names :=
      failsOnly_ancestorsOf (P := fun failure ↦ ∀ names, failure ≠ .cyclic names) (by simp)
        failure hchain
    simpa [bind, Except.bind] using hfailure
  | ok chain =>
    have hnew : repeatedFrom (extend d chain).groupId (extend d chain).artifactId chain = [] ↔
        writtenIdentity d chain ∉ chain.map identity := repeatedFrom_eq_nil_iff
    cases hcycle : repeatedFrom (extend d chain).groupId (extend d chain).artifactId chain with
    | nil => simpa [bind, Except.bind, hcycle] using hnew.1 hcycle
    | cons first rest =>
      have hrepeated : writtenIdentity d chain ∈ chain.map identity := by
        by_contra hmem
        simp [hnew.2 hmem] at hcycle
      simpa [bind, Except.bind, hcycle] using hrepeated

/-- Only inheritance reports a cycle of ancestors. -/
theorem resolve_eq_cyclic_iff {names : List String} :
    resolve policy d supplied = .error (.cyclic names) ↔
      inherit d supplied = .error (.cyclic names) := by
  unfold resolve
  cases hinherited : inherit d supplied with
  | error failure => rfl
  | ok inherited =>
    refine iff_of_false (fun h ↦ ?_) (by simp)
    have hlater : FailsOnly (fun failure ↦ ∀ names, failure ≠ .cyclic names)
        (inherited.substitute policy >>= (·.applyPlugins policy)) := by
      refine FailsOnly.bind (failsOnly_substitute (by simp) (by simp)) fun substituted _ ↦ ?_
      exact failsOnly_applyPlugins (by simp) (by simp)
    exact hlater _ h names rfl

/-- A project that was resolved has coordinates that differ from those of its ancestors, and so have
its ancestors, unless a stated group id was expanded into that of an ancestor. A descriptor is
rejected as a cycle exactly if its coordinates, as they are written, are those of an ancestor. -/
theorem resolve_coordinates (hsupplied : ∀ parent, supplied = some parent → Obtained parent) :
    (∀ project, resolve policy d supplied = .ok project →
      ((project.levels.map identity).Nodup ↔
        ∀ level ∈ project.levels, ∀ text, level.declared.groupId = some text →
          level.groupId ≠ some text → level.identity ∉ level.ancestors.map identity)) ∧
    ((∃ names, resolve policy d supplied = .error (.cyclic names)) ↔
      ∃ chain, ancestorsOf d supplied = .ok chain ∧
        writtenIdentity d chain ∈ chain.map identity) := by
  refine ⟨fun project h ↦ (Obtained.resolve hsupplied h).nodup_identity_iff, ?_⟩
  simp only [resolve_eq_cyclic_iff, exists_inherit_cyclic_iff]

/-- A project with a group id that its property repeats. -/
def namesake : Descriptor :=
  { (default : Descriptor) with
    groupId := some "g"
    artifactId := "a"
    properties := SortedMap.ofList [("group", "g")]
    location := "/w/project.json" }

/-- A project that refers to it, and whose group id expands to the same. -/
def namesakeChild : Descriptor :=
  { (default : Descriptor) with
    groupId := some "$\x7bgroup\x7d"
    artifactId := "a"
    parentRef := some ⟨none, "a", none, none⟩
    location := "/w/child/project.json" }

def namesakeProject : Project :=
  { extend namesakeChild [extend namesake []] with groupId := some "g" }

theorem resolve_namesake : resolve .fail namesake none = .ok (extend namesake []) :=
  rfl

theorem resolve_namesakeChild :
    resolve .fail namesakeChild (some (extend namesake [])) = .ok namesakeProject :=
  rfl

theorem namesakeChild_not_nodup :
    ∃ parent project, resolve .fail namesake none = .ok parent ∧
      resolve .fail namesakeChild (some parent) = .ok project ∧
      ¬(project.levels.map identity).Nodup :=
  ⟨_, _, resolve_namesake, resolve_namesakeChild, by decide +kernel⟩

theorem namesakeChild_coordinates :
    Obtained (extend namesake []) ∧
      ((namesakeProject.levels.map identity).Nodup ↔
        ∀ level ∈ namesakeProject.levels, ∀ text, level.declared.groupId = some text →
          level.groupId ≠ some text → level.identity ∉ level.ancestors.map identity) := by
  have hparent : Obtained (extend namesake []) :=
    .resolve (fun parent h ↦ absurd h (by simp)) resolve_namesake
  have hsupplied (parent : Project) (h : some (extend namesake []) = some parent) :
      Obtained parent := Option.some.inj h ▸ hparent
  exact ⟨hparent, (resolve_coordinates hsupplied).1 _ resolve_namesakeChild⟩

end Reactor.Project

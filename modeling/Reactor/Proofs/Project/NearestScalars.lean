import Reactor.Proofs.Project.Idempotence
import Reactor.Proofs.Project.Obtained

/-!
# Model version, group id and version

A project takes the model version, the group id and the version that its descriptor does not state
from the nearest ancestor, which may have taken it from its own nearest ancestor. Altogether it has
the value of the nearest level whose descriptor states one, in the form that this level was resolved
to. The value is not expanded again further down, whatever it looks like.
-/

namespace Reactor.Project

/-- The texts that a project may inherit from its nearest ancestor. -/
inductive Scalar
  | modelVersion
  | groupId
  | version

variable {policy : MissingProperty} {d : Descriptor} {supplied : Option Project}
  {project result level : Project} {chain : List Project} {scalar : Scalar}

namespace Scalar

/-- What a descriptor states. -/
def stated : Scalar → Descriptor → Option String
  | modelVersion, d => d.modelVersion
  | groupId, d => d.groupId
  | version, d => d.version

/-- What a project has. -/
def effective : Scalar → Project → Option String
  | modelVersion, project => project.modelVersion
  | groupId, project => project.groupId
  | version, project => project.version

/-- The first of a project and its ancestors, the nearest first, whose descriptor states the
scalar. -/
def nearest? (scalar : Scalar) (project : Project) : Option Project :=
  project.selfAndAncestors.find? fun level ↦ (scalar.stated level.declared).isSome

theorem nearest?_of_stated (h : (scalar.stated project.declared).isSome) :
    scalar.nearest? project = some project :=
  List.find?_cons_of_pos h

theorem nearest?_of_not_stated (h : scalar.stated project.declared = none) :
    scalar.nearest? project =
      project.ancestors.reverse.find? fun level ↦ (scalar.stated level.declared).isSome :=
  List.find?_cons_of_neg (by simp [h])

end Scalar

/-! ## One step -/

theorem effective_extend_root (scalar : Scalar) (d : Descriptor) :
    scalar.effective (extend d []) = scalar.stated d := by
  cases scalar <;> exact Option.or_none

theorem effective_extend (scalar : Scalar) (d : Descriptor) (nearest : Project) :
    scalar.effective (extend d nearest.levels) =
      (scalar.stated d).or (scalar.effective nearest) := by
  have hnearest : nearest.levels.getLast? = some nearest := by simp [levels]
  cases scalar <;> simp only [extend, hnearest, Scalar.effective, Scalar.stated, Option.bind_some]

/-- Substitution leaves what the descriptor does not state. -/
theorem effective_of_substitute (h : project.substitute policy = .ok result)
    (hstated : scalar.stated project.declared = none) :
    scalar.effective result = scalar.effective project := by
  obtain ⟨scope, _, _, _, hscope, -, -, -, rfl⟩ := substitute_eq_ok_iff.1 h
  obtain ⟨groupId, version, hgroupId, hversion, rfl⟩ := substituteCoordinates_eq_ok_iff.1 hscope
  cases scalar with
  | modelVersion => rfl
  | groupId =>
    have hnone : project.declared.groupId = none := hstated
    rw [hnone] at hgroupId
    obtain rfl := Except.ok.inj hgroupId
    rfl
  | version =>
    have hnone : project.declared.version = none := hstated
    rw [hnone] at hversion
    obtain rfl := Except.ok.inj hversion
    rfl

theorem effective_of_applyPlugins (h : project.applyPlugins policy = .ok result) (scalar : Scalar) :
    scalar.effective result = scalar.effective project := by
  obtain ⟨effectivePlugins, -, rfl⟩ := applyPlugins_eq_ok_iff.1 h
  cases scalar <;> rfl

/-! ## All levels -/

/-- Whether a project has what the nearest level that states a scalar has. -/
def HasNearest (scalar : Scalar) (project : Project) : Prop :=
  scalar.effective project = (scalar.nearest? project).bind scalar.effective

theorem hasNearest_of_stated (h : (scalar.stated project.declared).isSome) :
    HasNearest scalar project := by
  rw [HasNearest, Scalar.nearest?_of_stated h, Option.bind_some]

theorem HasNearest.expansion (h : HasNearest scalar project)
    (hexpansion : ExpansionOf project result)
    (heffective : scalar.stated project.declared = none →
      scalar.effective result = scalar.effective project) : HasNearest scalar result := by
  cases hstated : scalar.stated project.declared with
  | some text =>
    have hresult : (scalar.stated result.declared).isSome := by
      rw [hexpansion.declared, hstated]
      rfl
    exact hasNearest_of_stated hresult
  | none =>
    have hresult : scalar.stated result.declared = none := hexpansion.declared ▸ hstated
    calc
      scalar.effective result = scalar.effective project := heffective hstated
      _ = (scalar.nearest? project).bind scalar.effective := h
      _ = (scalar.nearest? result).bind scalar.effective := by
        rw [Scalar.nearest?_of_not_stated hstated, Scalar.nearest?_of_not_stated hresult,
          hexpansion.ancestors]

/-- By induction along the ancestors, however each of them was obtained. -/
theorem Obtained.hasNearest (h : Obtained project) (scalar : Scalar) :
    HasNearest scalar project := by
  refine Obtained.rec_nearest (motive := HasNearest scalar) (fun d ↦ ?_) (fun d nearest _ ih ↦ ?_)
    (fun policy project result ih hsubstituted ↦ ?_) (fun policy project result ih happlied ↦ ?_) h
  · cases hstated : scalar.stated d with
    | some text => exact hasNearest_of_stated (Option.isSome_of_eq_some hstated)
    | none =>
      calc
        scalar.effective (extend d []) = none := (effective_extend_root scalar d).trans hstated
        _ = (scalar.nearest? (extend d [])).bind scalar.effective := by
          rw [Scalar.nearest?_of_not_stated hstated]
          rfl
  · cases hstated : scalar.stated d with
    | some text => exact hasNearest_of_stated (Option.isSome_of_eq_some hstated)
    | none =>
      have hnearest : scalar.nearest? (extend d nearest.levels) = scalar.nearest? nearest := by
        rw [Scalar.nearest?_of_not_stated hstated, Scalar.nearest?, ← reverse_levels]
        rfl
      calc
        scalar.effective (extend d nearest.levels) = scalar.effective nearest := by
          rw [effective_extend, hstated, Option.none_or]
        _ = (scalar.nearest? nearest).bind scalar.effective := ih
        _ = (scalar.nearest? (extend d nearest.levels)).bind scalar.effective := by rw [hnearest]
  · exact ih.expansion (expansionOf_of_substitute hsubstituted)
      (effective_of_substitute hsubstituted)
  · exact ih.expansion (expansionOf_of_applyPlugins happlied)
      fun _ ↦ effective_of_applyPlugins happlied scalar

/-! ## Levels as they were resolved -/

/-- The projects that resolution returns, under any policy, when every supplied parent is such a
project, too. -/
inductive FullyResolved : Project → Prop
  | resolve {policy : MissingProperty} {d : Descriptor} {supplied : Option Project}
    {project : Project} (hsupplied : ∀ parent, supplied = some parent → FullyResolved parent)
    (h : resolve policy d supplied = .ok project) : FullyResolved project

theorem FullyResolved.obtained (h : FullyResolved project) : Obtained project := by
  induction h with
  | resolve _ h ih => exact .resolve ih h

/-- Every level of such a project is one, too. -/
theorem FullyResolved.of_mem_levels (h : FullyResolved project) :
    ∀ level ∈ project.levels, FullyResolved level := by
  induction h with
  | resolve hsupplied h ih =>
    refine forall_mem_levels.2 ⟨fun level hlevel ↦ ?_, .resolve hsupplied h⟩
    rcases ancestorsOf_eq_ok (ancestorsOf_of_resolve h) with ⟨-, hnil⟩ | ⟨_, parent, _, _, -,
      hparent, hchain, -, hinitial⟩
    · rw [hnil] at hlevel
      exact absurd hlevel List.not_mem_nil
    · rw [hchain] at hlevel
      exact ih parent hparent level (hinitial.subset hlevel)

/-- How a level holds the texts that its own descriptor states. The model version is kept as it is.
The coordinates are expanded in the scope of the level before its coordinates were expanded, in
which every other name means what it means in the level as it ended up. -/
structure HoldsStated (policy : MissingProperty) (level : Project) : Prop where
  modelVersion : ∀ text ∈ level.declared.modelVersion, level.modelVersion = some text
  groupId : Expanded ((extend level.declared level.ancestors).expand policy)
    level.declared.groupId level.groupId
  version : Expanded ((extend level.declared level.ancestors).expand policy)
    level.declared.version level.version
  lookup : ∀ name, (name ∈ coordinateNames → (level.declaredProperty? name).isSome = true) →
    (extend level.declared level.ancestors).lookup name = level.lookup name

theorem declaredProperty?_of_substitute (h : project.substitute policy = .ok result)
    (name : String) : result.declaredProperty? name = project.declaredProperty? name := by
  have hexpansion := expansionOf_of_substitute h
  simp only [declaredProperty?, selfAndAncestors, List.findSome?_cons, hexpansion.ancestors,
    hexpansion.declared]

theorem modelVersion_of_substitute (h : project.substitute policy = .ok result) :
    result.modelVersion = project.modelVersion := by
  obtain ⟨scope, _, _, _, hscope, -, -, -, rfl⟩ := substitute_eq_ok_iff.1 h
  obtain ⟨groupId, version, -, -, rfl⟩ := substituteCoordinates_eq_ok_iff.1 hscope
  rfl

theorem holdsStated_of_substitute (h : (extend d chain).substitute policy = .ok result) :
    result.HoldsStated policy := by
  have hexpansion := expansionOf_of_substitute h
  have hscope : extend result.declared result.ancestors = extend d chain := by
    rw [hexpansion.declared, hexpansion.ancestors]
    rfl
  obtain ⟨hgroupId, hversion⟩ := expanded_of_substitute h
  refine ⟨fun text htext ↦ ?_, ?_, ?_, fun name hname ↦ ?_⟩
  · have hstated : d.modelVersion = some text := by
      rw [hexpansion.declared] at htext
      exact htext
    rw [modelVersion_of_substitute h, extend, hstated, Option.some_or]
  · rw [hscope, hexpansion.declared]
    exact hgroupId
  · rw [hscope, hexpansion.declared]
    exact hversion
  · rw [declaredProperty?_of_substitute h] at hname
    rw [hscope]
    exact (lookup_of_substitute h hname).symm

theorem holdsStated_of_resolve (h : resolve policy d supplied = .ok project) :
    project.HoldsStated policy := by
  obtain ⟨inherited, substituted, hinherited, hsubstituted, happlied⟩ := resolve_eq_ok_iff.1 h
  obtain ⟨chain, hchain, -, rfl⟩ := inherit_eq_ok_iff.1 hinherited
  obtain ⟨effectivePlugins, -, rfl⟩ := applyPlugins_eq_ok_iff.1 happlied
  obtain ⟨hmodelVersion, hgroupId, hversion, hlookup⟩ := holdsStated_of_substitute hsubstituted
  exact ⟨hmodelVersion, hgroupId, hversion, hlookup⟩

/-- A project that was resolved below projects that were resolved has the model version, the group
id and the version of the nearest level that states one, as that level holds it: expanded once, in
the scope of that level. The artifact id, the packaging and the location are its own. -/
theorem scalars_of_resolve (hsupplied : ∀ parent, supplied = some parent → FullyResolved parent)
    (h : resolve policy d supplied = .ok project) :
    (∀ scalar : Scalar,
      scalar.effective project = (scalar.nearest? project).bind scalar.effective) ∧
    (∀ level ∈ project.selfAndAncestors, ∃ policy supplied,
      resolve policy level.declared supplied = .ok level ∧ level.HoldsStated policy) ∧
    project.declared = d ∧ project.artifactId = d.artifactId ∧ project.packaging = d.packaging ∧
    project.location = d.location := by
  have hresolved : FullyResolved project := .resolve hsupplied h
  refine ⟨hresolved.obtained.hasNearest, fun level hlevel ↦ ?_, declared_of_resolve h,
    artifactId_of_resolve h, ?_, location_of_resolve h⟩
  · rw [← reverse_levels, List.mem_reverse] at hlevel
    cases hresolved.of_mem_levels level hlevel with
    | @resolve policy d supplied _ _ hlevel =>
      have hdeclared := declared_of_resolve hlevel
      exact ⟨policy, supplied, hdeclared ▸ hlevel, holdsStated_of_resolve hlevel⟩
  · obtain ⟨inherited, scope, _, _, _, _, hinherited, hscope, -, -, -, -, rfl⟩ := resolve_cases h
    obtain ⟨chain, -, -, rfl⟩ := inherit_eq_ok_iff.1 hinherited
    obtain ⟨groupId, version, -, -, rfl⟩ := substituteCoordinates_eq_ok_iff.1 hscope
    rfl

/-- A project whose group id is a placeholder after the escape is undone. -/
def escapedRoot : Descriptor :=
  { (default : Descriptor) with
    groupId := some "$$\x7bteam\x7d"
    artifactId := "root"
    version := some "$\x7brevision\x7d"
    properties := SortedMap.ofList [("revision", "1"), ("team", "a")]
    location := "/w/project.json" }

/-- A project that inherits both coordinates and declares the properties anew. -/
def escapedLeaf : Descriptor :=
  { (default : Descriptor) with
    artifactId := "leaf"
    parentRef := some ⟨none, "root", none, none⟩
    properties := SortedMap.ofList [("revision", "2"), ("team", "b")]
    location := "/w/leaf/project.json" }

def escapedRootProject : Project :=
  { extend escapedRoot [] with
    groupId := some "$\x7bteam\x7d"
    version := some "1" }

def escapedLeafProject : Project :=
  extend escapedLeaf [escapedRootProject]

theorem scalars_of_resolve_escapedLeaf :
    escapedLeafProject.lookup "team" = some "b" ∧
      Scalar.groupId.nearest? escapedLeafProject = some escapedRootProject ∧
      escapedLeafProject.groupId = some "$\x7bteam\x7d" ∧
      escapedLeafProject.version = some "1" ∧ escapedLeafProject.modelVersion = none ∧
      ∃ policy supplied, resolve policy escapedRoot supplied = .ok escapedRootProject ∧
        escapedRootProject.HoldsStated policy := by
  have hroot : resolve .keep escapedRoot none = .ok escapedRootProject := by rfl
  have hleaf : resolve .fail escapedLeaf (some escapedRootProject) = .ok escapedLeafProject := by
    rfl
  have hresolved : FullyResolved escapedRootProject :=
    .resolve (fun parent hparent ↦ absurd hparent (by simp)) hroot
  have hsupplied (parent : Project) (hparent : some escapedRootProject = some parent) :
      FullyResolved parent := Option.some.inj hparent ▸ hresolved
  obtain ⟨hscalars, hlevels, -⟩ := scalars_of_resolve hsupplied hleaf
  have hmem : escapedRootProject ∈ escapedLeafProject.selfAndAncestors :=
    List.mem_cons_of_mem _ (List.mem_singleton_self _)
  exact ⟨rfl, rfl, hscalars .groupId, hscalars .version, hscalars .modelVersion,
    hlevels escapedRootProject hmem⟩

end Reactor.Project

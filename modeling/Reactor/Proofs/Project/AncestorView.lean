import Reactor.Proofs.Project.Ancestors
import Reactor.Proofs.Project.Idempotence

/-!
# What counts of an ancestor

Resolution reads from the levels above a descriptor what they declare and the coordinates that they
pass on. It takes over their effective properties, too, but only to replace them by what the levels
declare. So any view of the ancestors that keeps declarations and coordinates commutes with every
step of resolution, and below parents whose levels look the same a descriptor is resolved to
projects that look the same, or it fails in the same way.
-/

namespace Reactor.Project

variable {policy : MissingProperty} {d : Descriptor} {parent parent' project project' : Project}
  {view : Project → Project}

/-- A view of ancestors that shows what each of them declares and the coordinates that it passes
on. -/
structure IsView (view : Project → Project) : Prop where
  declared : ∀ project, (view project).declared = project.declared
  modelVersion : ∀ project, (view project).modelVersion = project.modelVersion
  groupId : ∀ project, (view project).groupId = project.groupId
  artifactId : ∀ project, (view project).artifactId = project.artifactId
  version : ∀ project, (view project).version = project.version

/-- The project with its ancestors as a view shows them. -/
def mapAncestors (view : Project → Project) (project : Project) : Project :=
  { project with ancestors := project.ancestors.map view }

/-! ## What a project tells -/

theorem toJson_mapAncestors (hview : IsView view) (project : Project) :
    (project.mapAncestors view).toJson = project.toJson := by
  have hid : id ∘ view = id := by
    funext ancestor
    rw [Function.comp_apply, id, hview.groupId, hview.artifactId, hview.version, id]
  have hids : (project.mapAncestors view).ancestors.map id = project.ancestors.map id := by
    rw [mapAncestors, List.map_map, hid]
  unfold toJson
  rw [hids]
  rfl

theorem fingerprint_mapAncestors (hview : IsView view) (project : Project) :
    (project.mapAncestors view).fingerprint = project.fingerprint := by
  rw [fingerprint, toJson_mapAncestors hview, fingerprint]

/-! ## Inheritance -/

theorem ancestorsFrom?_map (hview : IsView view) (ref : ParentRef) (chain : List Project) :
    ancestorsFrom? ref (chain.map view) = (ancestorsFrom? ref chain).map (·.map view) := by
  induction chain with
  | nil => rfl
  | cons nearest rest ih =>
    have hsame : (view nearest).isReferencedBy ref = nearest.isReferencedBy ref := by
      rw [isReferencedBy, hview.groupId, hview.artifactId, hview.version, isReferencedBy]
    rw [List.map_cons, ancestorsFrom?, ancestorsFrom?, hsame, ih]
    split <;> rfl

/-- Parents whose levels look the same supply chains of ancestors that look the same. -/
theorem map_ancestorsOf (hview : IsView view)
    (h : parent.levels.map view = parent'.levels.map view) :
    List.map view <$> ancestorsOf d (some parent) =
      List.map view <$> ancestorsOf d (some parent') := by
  unfold ancestorsOf
  cases d.parentRef with
  | none => rfl
  | some ref =>
    have hfound : (ancestorsFrom? ref parent.selfAndAncestors).map (·.map view) =
        (ancestorsFrom? ref parent'.selfAndAncestors).map (·.map view) := by
      rw [← ancestorsFrom?_map hview, ← ancestorsFrom?_map hview, ← reverse_levels,
        ← reverse_levels, List.map_reverse, List.map_reverse, h]
    simp only [Option.bind_some]
    cases hchain : ancestorsFrom? ref parent.selfAndAncestors with
    | none =>
      rw [hchain, Option.map_none] at hfound
      rw [Option.map_eq_none_iff.1 hfound.symm]
    | some chain =>
      rw [hchain, Option.map_some] at hfound
      obtain ⟨chain', hchain', hsame⟩ := Option.map_eq_some_iff.1 hfound.symm
      have hreverse : chain.reverse.map view = chain'.reverse.map view := by
        rw [List.map_reverse, ← hsame, List.map_reverse]
      rw [hchain']
      exact congrArg Except.ok hreverse

/-- Below ancestors as a view shows them, a descriptor becomes the same project, the properties
that it takes over apart. -/
theorem extend_map (hview : IsView view) (d : Descriptor) (chain : List Project) :
    extend d (chain.map view) = { (extend d chain).mapAncestors view with
      effectiveProperties := (extend d (chain.map view)).effectiveProperties } := by
  simp only [extend, mapAncestors, List.getLast?_map]
  cases chain.getLast? with
  | none => rfl
  | some nearest =>
    simp only [Option.map_some, Option.bind_some, hview.modelVersion, hview.groupId, hview.version]

theorem repeatedFrom_map (hview : IsView view) (groupId : Option String) (artifactId : String)
    (chain : List Project) :
    repeatedFrom groupId artifactId (chain.map view) =
      (repeatedFrom groupId artifactId chain).map view := by
  rw [repeatedFrom, repeatedFrom, List.dropWhile_map]
  congr 2
  funext ancestor
  rw [Function.comp_apply, hview.artifactId, hview.groupId]

/-- The project that a descriptor becomes below its ancestors, unless it repeats one of them. -/
def inheritFrom (d : Descriptor) (chain : List Project) : Except Failure Project :=
  match repeatedFrom (extend d chain).groupId d.artifactId chain with
  | [] => .ok (extend d chain)
  | cycle => .error (.cyclic (cycle.map (·.artifactId) ++ [d.artifactId]))

theorem inherit_eq_bind (d : Descriptor) (supplied : Option Project) :
    inherit d supplied = ancestorsOf d supplied >>= inheritFrom d := rfl

/-! ## Expansion -/

theorem declared_levels_mapAncestors (hview : IsView view) (project : Project) :
    (project.mapAncestors view).levels.map (·.declared) = project.levels.map (·.declared) := by
  have hdeclared : (fun level : Project ↦ level.declared) ∘ view = (·.declared) := by
    funext level
    exact hview.declared level
  simp only [levels, mapAncestors, List.map_append, List.map_map, hdeclared]
  rfl

theorem declaredProperty?_mapAncestors (hview : IsView view) (project : Project) (name : String) :
    (project.mapAncestors view).declaredProperty? name = project.declaredProperty? name := by
  have hself (project : Project) : project.declaredProperty? name =
      (project.levels.map (·.declared)).reverse.findSome? (·.properties.get? name) := by
    rw [declaredProperty?, ← List.map_reverse, List.findSome?_map, reverse_levels]
    rfl
  rw [hself, hself, declared_levels_mapAncestors hview]

theorem builtin?_mapAncestors (hview : IsView view) (project : Project) (name : String) :
    (project.mapAncestors view).builtin? name = project.builtin? name := by
  have hparent : (project.mapAncestors view).parent? = project.parent?.map view := by
    rw [parent?, mapAncestors, List.getLast?_map, parent?]
  have hartifactId : (project.mapAncestors view).parent?.map (·.artifactId) =
      project.parent?.map (·.artifactId) := by
    rw [hparent, Option.map_map]
    congr 1
    funext parent
    exact hview.artifactId parent
  have hversion : (project.mapAncestors view).parent?.bind (·.version) =
      project.parent?.bind (·.version) := by
    rw [hparent, Option.bind_map]
    congr 1
    funext parent
    exact hview.version parent
  unfold builtin?
  rw [hartifactId, hversion]
  rfl

theorem expand_mapAncestors (hview : IsView view) (project : Project)
    (policy : MissingProperty) :
    (project.mapAncestors view).expand policy = project.expand policy := by
  have hlookup (name : String) : (project.mapAncestors view).lookup name = project.lookup name := by
    rw [lookup, lookup, declaredProperty?_mapAncestors hview, builtin?_mapAncestors hview]
  funext text
  exact expand_congr rfl rfl fun name _ ↦ hlookup name

theorem expandPlugin_mapAncestors (hview : IsView view) (project : Project)
    (policy : MissingProperty) :
    (project.mapAncestors view).expandPlugin policy = project.expandPlugin policy := by
  funext plugin
  rw [expandPlugin, expandPlugin, expand_mapAncestors hview]

theorem declaredProperties_mapAncestors (hview : IsView view) (project : Project) :
    (project.mapAncestors view).declaredProperties = project.declaredProperties := by
  have hself (project : Project) : project.declaredProperties =
      (project.levels.map (·.declared)).foldl (fun all d ↦ all.overlay d.properties) ∅ := by
    rw [declaredProperties, List.foldl_map]
  rw [hself, hself, declared_levels_mapAncestors hview]

theorem substituteCoordinates_mapAncestors (hview : IsView view) (project : Project)
    (policy : MissingProperty) :
    (project.mapAncestors view).substituteCoordinates policy =
      mapAncestors view <$> project.substituteCoordinates policy := by
  unfold substituteCoordinates
  rw [expand_mapAncestors hview]
  simp only [map_bind]
  rfl

theorem substitute_mapAncestors (hview : IsView view) (project : Project)
    (policy : MissingProperty) :
    (project.mapAncestors view).substitute policy =
      mapAncestors view <$> project.substitute policy := by
  unfold substitute
  rw [substituteCoordinates_mapAncestors hview, bind_map_left, map_bind]
  congr 1
  funext scope
  have hplugins (effectiveProperties : SortedMap String) (modules : List String) :
      ({ scope.mapAncestors view with effectiveProperties, modules } : Project).expandPlugin
          policy =
        ({ scope with effectiveProperties, modules } : Project).expandPlugin policy :=
    expandPlugin_mapAncestors hview { scope with effectiveProperties, modules } policy
  simp only [declaredProperties_mapAncestors hview, expand_mapAncestors hview, hplugins, map_bind]
  rfl

theorem applyPlugins_mapAncestors (hview : IsView view) (project : Project)
    (policy : MissingProperty) :
    (project.mapAncestors view).applyPlugins policy =
      mapAncestors view <$> project.applyPlugins policy := by
  have hself (project : Project) : project.levels.map (·.declared.plugins) =
      (project.levels.map (·.declared)).map (·.plugins) := by
    rw [List.map_map]
    rfl
  unfold applyPlugins
  rw [hself, declared_levels_mapAncestors hview, ← hself, expandPlugin_mapAncestors hview]
  simp only [map_bind]
  rfl

/-- Substitution rebuilds the effective properties and never reads those that were inherited. -/
theorem substitute_with_effectiveProperties (project : Project)
    (effectiveProperties : SortedMap String) (policy : MissingProperty) :
    ({ project with effectiveProperties } : Project).substitute policy =
      project.substitute policy := by
  have hcoordinates :
      ({ project with effectiveProperties } : Project).substituteCoordinates policy =
        (fun scope ↦ { scope with effectiveProperties }) <$>
          project.substituteCoordinates policy := by
    unfold substituteCoordinates
    simp only [map_bind]
    rfl
  unfold substitute
  rw [hcoordinates, bind_map_left]
  congr 1
  funext scope
  have hdeclared : ({ scope with effectiveProperties } : Project).declaredProperties =
      scope.declaredProperties :=
    declaredProperties_with scope scope.modules scope.plugins scope.effectivePlugins _
  rw [hdeclared]
  rfl

/-! ## Resolution -/

/-- Inheritance and substitution together commute with a view of the ancestors. The substitution is
what makes up for the properties that inheritance takes over. -/
theorem substitute_inheritFrom_map (hview : IsView view) (policy : MissingProperty) (d : Descriptor)
    (chain : List Project) :
    inheritFrom d (chain.map view) >>= (·.substitute policy) =
      mapAncestors view <$> (inheritFrom d chain >>= (·.substitute policy)) := by
  have hgroupId : (extend d (chain.map view)).groupId = (extend d chain).groupId := by
    rw [extend_map hview]
    rfl
  unfold inheritFrom
  rw [hgroupId, repeatedFrom_map hview]
  cases repeatedFrom (extend d chain).groupId d.artifactId chain with
  | nil =>
    have hsubstitute : (extend d (chain.map view)).substitute policy =
        mapAncestors view <$> (extend d chain).substitute policy := by
      rw [extend_map hview, substitute_with_effectiveProperties, substitute_mapAncestors hview]
    exact hsubstitute
  | cons first rest =>
    have hnames : (rest.map view).map (·.artifactId) = rest.map (·.artifactId) := by
      rw [List.map_map]
      exact List.map_congr_left fun ancestor _ ↦ hview.artifactId ancestor
    simp only [List.map_cons, hnames, hview.artifactId]
    rfl

/-- Below parents whose levels look the same, a descriptor is resolved to projects whose ancestors
look the same and which are equal otherwise, or it fails in the same way. -/
theorem mapAncestors_resolve (hview : IsView view)
    (h : parent.levels.map view = parent'.levels.map view) :
    mapAncestors view <$> resolve policy d (some parent) =
      mapAncestors view <$> resolve policy d (some parent') := by
  have hnatural (parent : Project) : mapAncestors view <$> resolve policy d (some parent) = (do
      let chain ← List.map view <$> ancestorsOf d (some parent)
      let substituted ← inheritFrom d chain >>= (·.substitute policy)
      substituted.applyPlugins policy) := by
    unfold resolve
    rw [inherit_eq_bind]
    simp only [bind_assoc, map_bind, bind_map_left, ← applyPlugins_mapAncestors hview]
    congr 1
    funext chain
    have hsubstitute := substitute_inheritFrom_map hview policy d chain
    rw [← bind_assoc, ← bind_assoc, hsubstitute, bind_map_left]
  rw [hnatural, hnatural, map_ancestorsOf hview h]

/-! ## The view without modules -/

/-- What counts of a project as an ancestor of others: neither its modules nor its own ancestors. -/
def asAncestor (project : Project) : Project :=
  { project with modules := [], ancestors := [] }

theorem isView_asAncestor : IsView asAncestor where
  declared _ := rfl
  modelVersion _ := rfl
  groupId _ := rfl
  artifactId _ := rfl
  version _ := rfl

/-- The project with what counts of its ancestors. -/
def condense (project : Project) : Project :=
  { project with ancestors := project.ancestors.map asAncestor }

@[simp] theorem asAncestor_condense (project : Project) :
    project.condense.asAncestor = project.asAncestor := rfl

theorem map_asAncestor_levels (project : Project) :
    project.levels.map asAncestor = project.condense.ancestors ++ [project.asAncestor] := by
  rw [levels, List.map_append, List.map_singleton, condense]

/-- Whether two projects are the same in all that counts for the projects below them. -/
def SameBelow (project project' : Project) : Prop :=
  project.levels.map asAncestor = project'.levels.map asAncestor

theorem SameBelow.of_condense (h : project.condense = project'.condense) :
    project.SameBelow project' := by
  rw [SameBelow, map_asAncestor_levels, map_asAncestor_levels, ← asAncestor_condense project, h,
    asAncestor_condense]

theorem SameBelow.declared (h : project.SameBelow project') :
    project.declared = project'.declared := by
  rw [SameBelow, map_asAncestor_levels, map_asAncestor_levels] at h
  obtain ⟨-, hself⟩ := List.append_singleton_inj.1 h
  exact congrArg (·.declared) hself

/-- The list of modules counts for nothing below. -/
theorem sameBelow_with_modules (project : Project) (modules : List String) :
    project.SameBelow { project with modules } := by
  rw [SameBelow, map_asAncestor_levels, map_asAncestor_levels]
  rfl

theorem toJson_condense (project : Project) : project.condense.toJson = project.toJson :=
  toJson_mapAncestors isView_asAncestor project

theorem fingerprint_condense (project : Project) :
    project.condense.fingerprint = project.fingerprint :=
  fingerprint_mapAncestors isView_asAncestor project

/-- Below parents whose levels are the same in all that counts, a descriptor is resolved in the same
way. -/
theorem condense_resolve (h : parent.SameBelow parent') :
    condense <$> resolve policy d (some parent) = condense <$> resolve policy d (some parent') :=
  mapAncestors_resolve isView_asAncestor h

end Reactor.Project

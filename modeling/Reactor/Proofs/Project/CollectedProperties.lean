import Reactor.Proofs.Project.EffectiveProperties
import Reactor.Proofs.Project.Obtained

/-!
# Properties collected level by level

Inheritance lays the properties of a descriptor over the effective properties of the project that it
inherits from, whatever these have become by then. Substitution collects the declarations of all
levels anew. Both have the same names, because expansion changes no name, and the same value
wherever the nearest declaration has no placeholder, because expansion then changes no value either.
-/

namespace Reactor.Project

variable {policy : MissingProperty} {d : Descriptor} {supplied : Option Project}
  {project result nearest : Project} {name : String}

/-- Whether an effective value can stem from a declared text. A text without placeholders is its own
effective value. -/
def StemsFrom (declared effective : String) : Prop :=
  Placeholder.IsPlain declared → effective = declared

/-- Whether the effective properties have the names that the levels of the project declare, and
values that stem from the nearest declarations. -/
def CollectsDeclared (project : Project) : Prop :=
  project.declaredProperties.Related StemsFrom project.effectiveProperties

theorem StemsFrom.refl (text : String) : StemsFrom text text :=
  fun _ ↦ rfl

theorem stemsFrom_of_expand {scope : Project} {text value : String}
    (h : scope.expand policy text = .ok value) : StemsFrom text value := by
  intro hplain
  rw [expand_of_plain hplain] at h
  exact (Except.ok.inj h).symm

/-! ## Inheritance and expansion -/

theorem declaredProperties_extend (d : Descriptor) (nearest : Project) :
    (extend d nearest.levels).declaredProperties =
      nearest.declaredProperties.overlay d.properties := by
  have hlevels : (extend d nearest.levels).levels =
    nearest.levels ++ [extend d nearest.levels] := rfl
  rw [declaredProperties, hlevels, List.foldl_append]
  rfl

theorem effectiveProperties_extend (d : Descriptor) (nearest : Project) :
    (extend d nearest.levels).effectiveProperties =
      nearest.effectiveProperties.overlay d.properties := by
  have hnearest : nearest.levels.getLast? = some nearest := by simp [levels]
  simp only [extend, hnearest, Option.elim_some]

theorem collectsDeclared_root (d : Descriptor) : (extend d []).CollectsDeclared :=
  SortedMap.Related.refl StemsFrom.refl _

theorem CollectsDeclared.extend (h : nearest.CollectsDeclared) (d : Descriptor) :
    (extend d nearest.levels).CollectsDeclared := by
  unfold CollectsDeclared
  rw [declaredProperties_extend, effectiveProperties_extend]
  exact h.overlay (.refl StemsFrom.refl d.properties)

/-- Substitution expands the declarations, whatever the effective properties were before. -/
theorem collectsDeclared_of_substitute (h : project.substitute policy = .ok result) :
    result.CollectsDeclared := by
  obtain ⟨scope, _, _, _, -, hproperties, -, -, rfl⟩ := substitute_eq_ok_iff.1 h
  unfold CollectsDeclared
  rw [declaredProperties_with]
  exact (SortedMap.mapM_eq_ok_iff.1 hproperties).mono fun _ _ ↦ stemsFrom_of_expand

theorem CollectsDeclared.applyPlugins (h : project.CollectsDeclared)
    (happlied : project.applyPlugins policy = .ok result) : result.CollectsDeclared := by
  obtain ⟨effectivePlugins, -, rfl⟩ := applyPlugins_eq_ok_iff.1 happlied
  unfold CollectsDeclared
  rw [declaredProperties_with]
  exact h

/-- By induction along the ancestors, however each of them was obtained. -/
theorem Obtained.collectsDeclared (h : Obtained project) : project.CollectsDeclared :=
  Obtained.rec_nearest collectsDeclared_root (fun d _ _ hnearest ↦ hnearest.extend d)
    (fun _ _ _ _ hsubstituted ↦ collectsDeclared_of_substitute hsubstituted)
    (fun _ _ _ hproject happlied ↦ hproject.applyPlugins happlied) h

/-! ## Both ways compared -/

theorem mem_keys_declaredProperties_iff :
    name ∈ project.declaredProperties.keys ↔
      ∃ level ∈ project.selfAndAncestors, name ∈ level.declared.properties.keys := by
  rw [SortedMap.mem_keys_iff, get?_declaredProperties, Option.isSome_iff_exists,
    ← exists_declaresNearest_iff]
  simp only [declaredProperty?_eq_some_iff]

theorem declaredProperties_of_substitute (h : project.substitute policy = .ok result) :
    result.declaredProperties = project.declaredProperties := by
  have hexpansion := expansionOf_of_substitute h
  simp only [declaredProperties, levels, List.foldl_append, List.foldl_cons, List.foldl_nil,
    hexpansion.ancestors, hexpansion.declared]

/-- The texts of the nearest declarations are among those of all levels. -/
theorem isPlain_of_declaredProperties
    (hplain : ∀ level ∈ project.selfAndAncestors, ∀ entry ∈ level.declared.properties.entries,
      Placeholder.IsPlain entry.2) {text : String}
    (htext : project.declaredProperties.get? name = some text) : Placeholder.IsPlain text := by
  rw [get?_declaredProperties, declaredProperty?_eq_some_iff] at htext
  obtain ⟨nearer, level, further, hlevels, hdeclares, -⟩ := htext
  have hlevel : level ∈ project.selfAndAncestors := by simp [hlevels]
  exact hplain level hlevel (name, text) (SortedMap.mem_entries_iff.2 hdeclares)

/-- Where no declaration has a placeholder, the effective properties are those declared. -/
theorem CollectsDeclared.effectiveProperties_eq (h : project.CollectsDeclared)
    (hplain : ∀ name text, project.declaredProperties.get? name = some text →
      Placeholder.IsPlain text) : project.effectiveProperties = project.declaredProperties := by
  ext name : 1
  have hstems := SortedMap.Related.get? h name
  have hplain := hplain name
  generalize project.declaredProperties.get? name = declared at hstems hplain ⊢
  generalize project.effectiveProperties.get? name = effective at hstems ⊢
  cases hstems with
  | none => rfl
  | some hstems => rw [hstems (hplain _ rfl)]

/-- The effective properties that inheritance leaves, in whatever state it found the supplied
parent, have the names that the project and its ancestors declare. Substitution keeps these names,
and it keeps the values, too, if no declared one has a placeholder. -/
theorem effectiveProperties_of_inherit
    (hsupplied : ∀ parent, supplied = some parent → Obtained parent)
    (h : inherit d supplied = .ok project) :
    (∀ name, name ∈ project.effectiveProperties.keys ↔
      ∃ level ∈ project.selfAndAncestors, name ∈ level.declared.properties.keys) ∧
    ∀ policy result, project.substitute policy = .ok result →
      result.effectiveProperties.keys = project.effectiveProperties.keys ∧
      ((∀ level ∈ project.selfAndAncestors, ∀ entry ∈ level.declared.properties.entries,
          Placeholder.IsPlain entry.2) →
        result.effectiveProperties = project.effectiveProperties) := by
  have hinherited := (Obtained.inherit hsupplied h).collectsDeclared
  have hkeys : project.declaredProperties.keys = project.effectiveProperties.keys :=
    hinherited.keys_eq
  refine ⟨fun name ↦ ?_, fun policy result hsubstituted ↦ ?_⟩
  · rw [← hkeys, mem_keys_declaredProperties_iff]
  · have hresult := collectsDeclared_of_substitute hsubstituted
    have hdeclared := declaredProperties_of_substitute hsubstituted
    refine ⟨?_, fun hplain ↦ ?_⟩
    · calc
        result.effectiveProperties.keys = result.declaredProperties.keys := hresult.keys_eq.symm
        _ = project.declaredProperties.keys := by rw [hdeclared]
        _ = project.effectiveProperties.keys := hkeys
    · have hplain (name text : String) :
          project.declaredProperties.get? name = some text → Placeholder.IsPlain text :=
        isPlain_of_declaredProperties hplain
      calc
        result.effectiveProperties = result.declaredProperties :=
          hresult.effectiveProperties_eq (hdeclared ▸ hplain)
        _ = project.declaredProperties := hdeclared
        _ = project.effectiveProperties := (hinherited.effectiveProperties_eq hplain).symm

/-- A plain property is inherited as it is. One with a placeholder is inherited as the expanded
supplied parent has it, and substitution rebuilds it from its declaration. -/
theorem effectiveProperties_of_inherit_template :
    (inherit revisionMiddle (some (extend revisionRoot [])) = .ok rawMiddle ∧
      rawMiddle.substitute .fail = .ok expandedMiddle ∧
      expandedMiddle.effectiveProperties = rawMiddle.effectiveProperties) ∧
    ∃ project result, inherit templateLeaf (some templateRootProject) = .ok project ∧
      project.substitute .fail = .ok result ∧
      result.effectiveProperties.keys = project.effectiveProperties.keys ∧
      project.effectiveProperties.get? "out" = some "/srv/out" ∧
      result.effectiveProperties.get? "out" = some "$\x7bproject.basedir\x7d/out" := by
  have hrevision : inherit revisionRoot none = .ok (extend revisionRoot []) := rfl
  have hplainRoot : Obtained (extend revisionRoot []) := .of_inherit_none hrevision
  have hmiddle : inherit revisionMiddle (some (extend revisionRoot [])) = .ok rawMiddle := rfl
  have hexpanded : rawMiddle.substitute .fail = .ok expandedMiddle := by rfl
  have hroot : Obtained templateRootProject :=
    .resolve (fun parent hparent ↦ absurd hparent (by simp)) resolve_templateRoot
  have hleaf : inherit templateLeaf (some templateRootProject) = .ok _ := rfl
  obtain ⟨-, hplain⟩ := effectiveProperties_of_inherit
    (fun _ hparent ↦ Option.some.inj hparent ▸ hplainRoot) hmiddle
  obtain ⟨-, hkeys⟩ := effectiveProperties_of_inherit
    (fun _ hparent ↦ Option.some.inj hparent ▸ hroot) hleaf
  refine ⟨⟨hmiddle, hexpanded, (hplain .fail _ hexpanded).2 ?_⟩, _, _, hleaf, rfl,
    (hkeys .fail _ rfl).1, rfl, rfl⟩
  decide

end Reactor.Project

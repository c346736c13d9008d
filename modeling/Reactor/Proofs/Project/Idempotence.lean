import Reactor.Proofs.Placeholder
import Reactor.Proofs.Project.Steps

/-!
# Substituting twice

Properties, module names and plugins are rebuilt from what the descriptors declare, in the scope of
the expanded coordinates, so substituting them again changes nothing. Coordinates are expanded in
the scope of the project as it was before. A coordinate that refers to another one therefore sees an
unexpanded text the first time and an expanded one the second time.
-/

namespace Reactor

/-- The coordinates that a descriptor states and that may hold placeholders, as written. -/
def Descriptor.coordinateTexts (d : Descriptor) : List String :=
  d.groupId.toList ++ d.version.toList

namespace Project

variable {policy : MissingProperty} {project scope result : Project}
  {f g : String → Except Failure String} {declared effective : Option String}

/-- A coordinate that is stated has the value that its text expands to. -/
def Expanded (f : String → Except Failure String) (declared effective : Option String) : Prop :=
  ∀ text ∈ declared, ∃ value, f text = .ok value ∧ effective = some value

theorem expanded_of_mapM {value : Option String} (h : declared.mapM f = .ok value) :
    Expanded f declared (value.or effective) := by
  rintro text rfl
  obtain ⟨value, hvalue, rfl⟩ := map_eq_ok.1 h
  exact ⟨value, hvalue, rfl⟩

theorem Expanded.exists_mapM (h : Expanded f declared effective) :
    ∃ value, declared.mapM f = .ok value ∧ value.or effective = effective := by
  cases declared with
  | none => exact ⟨none, rfl, rfl⟩
  | some text =>
    obtain ⟨value, hvalue, rfl⟩ := h text rfl
    exact ⟨some value, map_eq_ok.2 ⟨value, hvalue, rfl⟩, rfl⟩

theorem Expanded.congr_iff (h : Expanded f declared effective) :
    Expanded g declared effective ↔ ∀ text ∈ declared, g text = f text := by
  constructor
  · intro hg text htext
    obtain ⟨value, hvalue, rfl⟩ := h text htext
    obtain ⟨value', hvalue', heq⟩ := hg text htext
    rw [hvalue, hvalue', Option.some.inj heq]
  · intro hg text htext
    obtain ⟨value, hvalue, heffective⟩ := h text htext
    exact ⟨value, (hg text htext).trans hvalue, heffective⟩

theorem expanded_of_substituteCoordinates (h : project.substituteCoordinates policy = .ok scope) :
    Expanded (project.expand policy) project.declared.groupId scope.groupId ∧
      Expanded (project.expand policy) project.declared.version scope.version := by
  obtain ⟨groupId, version, hgroupId, hversion, rfl⟩ := substituteCoordinates_eq_ok_iff.1 h
  exact ⟨expanded_of_mapM hgroupId, expanded_of_mapM hversion⟩

/-- Coordinates are stable under expansion if those that are stated are expanded already. -/
theorem substituteCoordinates_eq_self_iff :
    project.substituteCoordinates policy = .ok project ↔
      Expanded (project.expand policy) project.declared.groupId project.groupId ∧
        Expanded (project.expand policy) project.declared.version project.version := by
  refine ⟨expanded_of_substituteCoordinates, fun ⟨hgroupId, hversion⟩ ↦ ?_⟩
  obtain ⟨groupId, hgroupId, hgroupId'⟩ := hgroupId.exists_mapM
  obtain ⟨version, hversion, hversion'⟩ := hversion.exists_mapM
  refine substituteCoordinates_eq_ok_iff.2 ⟨groupId, version, hgroupId, hversion, ?_⟩
  rw [hgroupId', hversion']
  cases project
  rfl

/-- A project that was substituted once is stable if its coordinates are. -/
theorem substitute_eq_self_iff_substituteCoordinates (h : project.substitute policy = .ok result) :
    result.substitute policy = .ok result ↔ result.substituteCoordinates policy = .ok result := by
  constructor
  · intro hagain
    obtain ⟨scope, _, _, _, hscope, -, -, -, heq⟩ := substitute_eq_ok_iff.1 hagain
    obtain ⟨hgroupId, hversion⟩ := expanded_of_substituteCoordinates hscope
    have hgroupId' : result.groupId = scope.groupId := by rw [heq]
    have hversion' : result.version = scope.version := by rw [heq]
    rw [← hgroupId'] at hgroupId
    rw [← hversion'] at hversion
    exact substituteCoordinates_eq_self_iff.2 ⟨hgroupId, hversion⟩
  · intro hcoordinates
    obtain ⟨scope, properties, modules, plugins, -, hproperties, hmodules, hplugins, rfl⟩ :=
      substitute_eq_ok_iff.1 h
    refine substitute_eq_ok_iff.2 ⟨_, properties, modules, plugins, hcoordinates, ?_, hmodules,
      hplugins, rfl⟩
    rw [declaredProperties_with]
    exact hproperties

theorem declared_of_substitute (h : project.substitute policy = .ok result) :
    result.declared = project.declared := by
  obtain ⟨scope, _, _, _, hscope, -, -, -, rfl⟩ := substitute_eq_ok_iff.1 h
  have hdeclared := declared_of_substituteCoordinates hscope
  exact hdeclared

theorem expanded_of_substitute (h : project.substitute policy = .ok result) :
    Expanded (project.expand policy) project.declared.groupId result.groupId ∧
      Expanded (project.expand policy) project.declared.version result.version := by
  obtain ⟨scope, _, _, _, hscope, -, -, -, rfl⟩ := substitute_eq_ok_iff.1 h
  have hexpanded := expanded_of_substituteCoordinates hscope
  exact hexpanded

theorem substitute_eq_self_iff_expand (h : project.substitute policy = .ok result) :
    result.substitute policy = .ok result ↔
      (∀ text ∈ project.declared.groupId,
        result.expand policy text = project.expand policy text) ∧
      ∀ text ∈ project.declared.version,
        result.expand policy text = project.expand policy text := by
  obtain ⟨hgroupId, hversion⟩ := expanded_of_substitute h
  rw [substitute_eq_self_iff_substituteCoordinates h, substituteCoordinates_eq_self_iff,
    declared_of_substitute h, hgroupId.congr_iff, hversion.congr_iff]

/-- Substitution is stable exactly when every coordinate that the descriptor states expands to the
same text in the scope of the result as in the scope of the project. -/
theorem substitute_eq_self_iff (h : project.substitute policy = .ok result) :
    result.substitute policy = .ok result ↔
      ∀ text ∈ project.declared.coordinateTexts,
        result.expand policy text = project.expand policy text := by
  rw [substitute_eq_self_iff_expand h]
  simp only [Descriptor.coordinateTexts, List.mem_append, Option.mem_toList, Option.mem_def,
    or_imp, forall_and]

/-- A project whose version is a property, and whose group id repeats its version. -/
def versionedGroup : Descriptor :=
  { (default : Descriptor) with
    groupId := some "$\x7bproject.version\x7d"
    artifactId := "a"
    version := some "$\x7brev\x7d"
    properties := SortedMap.ofList [("rev", "1")]
    location := "/w/project.json" }

/-- The group id is the text of the version at first, and the version itself after the second
substitution. -/
theorem versionedGroup_substitute_ne :
    ∃ project result, inherit versionedGroup none = .ok project ∧
      project.substitute .fail = .ok result ∧ result.substitute .fail ≠ .ok result := by
  refine ⟨_, _, rfl, rfl, fun h ↦ ?_⟩
  have hgroupId := congrArg (fun outcome ↦ outcome.toOption.map (·.groupId)) h
  revert hgroupId
  decide +kernel

theorem versionedGroup_substitute_eq_self_iff :
    ∃ project result : Project, project.substitute .fail = .ok result ∧
      (result.substitute .fail = .ok result ↔
        ∀ text ∈ project.declared.coordinateTexts,
          result.expand .fail text = project.expand .fail text) := by
  have h : (extend versionedGroup []).substitute .fail = .ok _ := rfl
  exact ⟨_, _, h, substitute_eq_self_iff h⟩

/-! ## Coordinates that do not refer to coordinates -/

/-- The built-in names whose meaning the expansion of coordinates changes. -/
def coordinateNames : List String :=
  ["project.groupId", "project.version"]

theorem builtin?_with (project : Project) (groupId version : Option String) {name : String}
    (hname : name ∉ coordinateNames) :
    ({ project with groupId, version } : Project).builtin? name = project.builtin? name := by
  unfold builtin?
  split <;> first | rfl | simp [coordinateNames] at hname

theorem lookup_of_substitute (h : project.substitute policy = .ok result) {name : String}
    (hname : name ∈ coordinateNames → (project.declaredProperty? name).isSome = true) :
    result.lookup name = project.lookup name := by
  obtain ⟨scope, _, _, _, hscope, -, -, -, rfl⟩ := substitute_eq_ok_iff.1 h
  obtain ⟨groupId, version, -, -, rfl⟩ := substituteCoordinates_eq_ok_iff.1 hscope
  have hdeclared : (project.declaredProperty? name).or
      (({ project with groupId := groupId.or project.groupId
                       version := version.or project.version } : Project).builtin? name) =
      project.lookup name := by
    by_cases hmem : name ∈ coordinateNames
    · obtain ⟨value, hvalue⟩ := Option.isSome_iff_exists.1 (hname hmem)
      rw [lookup, hvalue, Option.some_or, Option.some_or]
    · rw [builtin?_with project _ _ hmem, lookup]
  exact hdeclared

theorem expand_congr {text : String} (hartifactId : project.artifactId = scope.artifactId)
    (hlocation : project.location = scope.location)
    (hlookup : ∀ name, Placeholder.RefersTo text name → project.lookup name = scope.lookup name) :
    project.expand policy text = scope.expand policy text := by
  unfold expand
  rw [Placeholder.substitute_congr hlookup, Placeholder.substituteLenient_congr hlookup,
    hartifactId, hlocation]

theorem expand_of_substitute (h : project.substitute policy = .ok result) {text : String}
    (hnames : ∀ name ∈ coordinateNames, Placeholder.RefersTo text name →
      (project.declaredProperty? name).isSome = true) :
    result.expand policy text = project.expand policy text := by
  have hlookup (name : String) (hrefers : Placeholder.RefersTo text name) :=
    lookup_of_substitute h fun hname ↦ hnames name hname hrefers
  obtain ⟨scope, _, _, _, hscope, -, -, -, rfl⟩ := substitute_eq_ok_iff.1 h
  obtain ⟨groupId, version, -, -, rfl⟩ := substituteCoordinates_eq_ok_iff.1 hscope
  exact expand_congr rfl rfl hlookup

/-- Substitution is stable if no coordinate refers to the group id or the version of the project,
other than by a name that some level declares as a property. -/
theorem substitute_substitute (h : project.substitute policy = .ok result)
    (hnames : ∀ text ∈ project.declared.coordinateTexts, ∀ name ∈ coordinateNames,
      Placeholder.RefersTo text name → (project.declaredProperty? name).isSome = true) :
    result.substitute policy = .ok result := by
  rw [substitute_eq_self_iff_expand h]
  constructor
  · intro text htext
    exact expand_of_substitute h
      (hnames text (List.mem_append_left _ (Option.mem_toList.2 htext)))
  · intro text htext
    exact expand_of_substitute h
      (hnames text (List.mem_append_right _ (Option.mem_toList.2 htext)))

end Project

end Reactor

import Mathlib.Data.List.Induction
import Reactor.Proofs.Placeholder
import Reactor.Proofs.Project.Ancestors
import Reactor.Proofs.SortedMap

/-!
# Effective properties

Two traversals look for the declaration of a property. The levels of a project are laid over each
other from the root down to collect the properties, and they are searched from the project up to
find what a placeholder refers to. Both select the declaration of the nearest level. The effective
properties of a resolved project are therefore the nearest declarations, expanded once in the scope
of the resolved project itself.
-/

namespace Reactor.Project

variable {policy : MissingProperty} {d : Descriptor} {supplied : Option Project}
  {project : Project} {levels : List Project} {name text value : String}
  {segment : Placeholder.Segment}

/-! ## The nearest declaration -/

/-- Whether the nearest level that declares a property, among the project and its ancestors,
declares it with the given text. -/
def DeclaresNearest (project : Project) (name text : String) : Prop :=
  ∃ nearer level further, project.selfAndAncestors = nearer ++ level :: further ∧
    level.declared.properties.get? name = some text ∧
    ∀ other ∈ nearer, other.declared.properties.get? name = none

/-- Whether no level declares a property. -/
def Undeclared (project : Project) (name : String) : Prop :=
  ∀ level ∈ project.selfAndAncestors, level.declared.properties.get? name = none

/-- The search from the project up finds the nearest declaration. -/
theorem declaredProperty?_eq_some_iff :
    project.declaredProperty? name = some text ↔ project.DeclaresNearest name text :=
  List.findSome?_eq_some_iff

theorem declaredProperty?_eq_none_iff :
    project.declaredProperty? name = none ↔ project.Undeclared name :=
  List.findSome?_eq_none_iff

theorem get?_foldl_overlay (levels : List Project) (name : String) :
    (levels.foldl (fun properties level ↦ SortedMap.overlay properties level.declared.properties)
        ∅).get? name =
      levels.reverse.findSome? (·.declared.properties.get? name) := by
  induction levels using List.reverseRecOn with
  | nil => rfl
  | append_singleton levels level ih =>
    rw [List.foldl_append, List.foldl_cons, List.foldl_nil, SortedMap.get?_overlay, ih,
      List.reverse_append, List.reverse_singleton, List.singleton_append, List.findSome?_cons]
    cases level.declared.properties.get? name <;> rfl

/-- Laying the levels over each other from the root down selects the declaration that the search
from the project up finds. -/
theorem get?_declaredProperties (project : Project) (name : String) :
    project.declaredProperties.get? name = project.declaredProperty? name := by
  rw [declaredProperties, get?_foldl_overlay, declaredProperty?, reverse_levels]

theorem exists_declaresNearest_iff :
    (∃ text, project.DeclaresNearest name text) ↔
      ∃ level ∈ project.selfAndAncestors, name ∈ level.declared.properties.keys := by
  have hnone : (¬∃ text, project.DeclaresNearest name text) ↔ project.Undeclared name := by
    rw [← declaredProperty?_eq_none_iff, Option.eq_none_iff_forall_not_mem, not_exists]
    simp only [← declaredProperty?_eq_some_iff, Option.mem_def]
  rw [← not_iff_not, hnone]
  simp [Undeclared, SortedMap.mem_keys_iff]

/-! ## The text of an expansion -/

/-- What a segment of a text is replaced by in the scope of a project. A reference is replaced by
the nearest declaration as it is written, or else by the value that every project defines. One that
means nothing fails or stays, depending on the policy. -/
inductive Replaces (project : Project) (policy : MissingProperty) :
    Placeholder.Segment → String → Prop
  | literal (text : String) : Replaces project policy (.literal text) text
  | declared {name text : String} (h : project.DeclaresNearest name text) :
    Replaces project policy (.property name) text
  | builtin {name value : String} (hundeclared : project.Undeclared name)
    (h : project.builtin? name = some value) : Replaces project policy (.property name) value
  | kept {name : String} (hpolicy : policy = .keep) (hundeclared : project.Undeclared name)
    (h : project.builtin? name = none) :
    Replaces project policy (.property name) (Placeholder.reference name)

/-- Whether a text reads as segments that are replaced by texts which together make a value. -/
def ExpandsTo (project : Project) (policy : MissingProperty) (text value : String) : Prop :=
  ∃ segments values, Placeholder.parse text = .ok segments ∧
    List.Forall₂ (Replaces project policy) segments values ∧ value = String.join values

theorem lookup_eq_some_iff :
    project.lookup name = some value ↔ project.DeclaresNearest name value ∨
      project.Undeclared name ∧ project.builtin? name = some value := by
  rw [lookup, Option.or_eq_some_iff, declaredProperty?_eq_some_iff, declaredProperty?_eq_none_iff]

theorem lookup_eq_none_iff :
    project.lookup name = none ↔ project.Undeclared name ∧ project.builtin? name = none := by
  rw [lookup, Option.or_eq_none_iff, declaredProperty?_eq_none_iff]

theorem replaces_literal_iff : project.Replaces policy (.literal text) value ↔ text = value :=
  ⟨fun h ↦ by cases h; rfl, fun h ↦ h ▸ .literal text⟩

theorem replaces_property_iff :
    project.Replaces policy (.property name) value ↔ project.lookup name = some value ∨
      policy = .keep ∧ project.lookup name = none ∧ Placeholder.reference name = value := by
  rw [lookup_eq_some_iff, lookup_eq_none_iff]
  constructor
  · intro h
    cases h with
    | declared h => exact .inl (.inl h)
    | builtin hundeclared h => exact .inl (.inr ⟨hundeclared, h⟩)
    | kept hpolicy hundeclared h => exact .inr ⟨hpolicy, ⟨hundeclared, h⟩, rfl⟩
  · rintro ((h | ⟨hundeclared, h⟩) | ⟨hpolicy, ⟨hundeclared, h⟩, rfl⟩)
    · exact .declared h
    · exact .builtin hundeclared h
    · exact .kept hpolicy hundeclared h

theorem replaces_fail_iff :
    project.Replaces .fail segment value ↔ segment.value? project.lookup = some value := by
  cases segment with
  | literal text => rw [replaces_literal_iff, Placeholder.Segment.value?, Option.some_inj]
  | property name => simp [replaces_property_iff, Placeholder.Segment.value?]

theorem replaces_keep_iff :
    project.Replaces .keep segment value ↔
      (segment.value? project.lookup).getD segment.written = value := by
  cases segment with
  | literal text => rw [replaces_literal_iff, Placeholder.Segment.value?, Option.getD_some]
  | property name =>
    rw [replaces_property_iff, Placeholder.Segment.value?, Placeholder.Segment.written]
    cases project.lookup name <;> simp

/-- Expansion in the scope of a project replaces every reference once. -/
theorem expand_eq_ok_iff_expandsTo :
    project.expand policy text = .ok value ↔ project.ExpandsTo policy text value := by
  unfold expand ExpandsTo
  rw [mapError_eq_ok]
  cases policy with
  | fail =>
    have hreplaces : project.Replaces .fail =
        fun segment value ↦ segment.value? project.lookup = some value := by
      funext segment value
      exact propext replaces_fail_iff
    simp only [Placeholder.substitute, bind_eq_ok, Placeholder.expand_eq_ok_iff, hreplaces,
      exists_and_left]
  | keep =>
    have hreplaces : project.Replaces .keep =
        fun segment value ↦ (segment.value? project.lookup).getD segment.written = value := by
      funext segment value
      exact propext replaces_keep_iff
    have hvalues (segments : List Placeholder.Segment) (values : List String) :
        List.Forall₂ (project.Replaces .keep) segments values ↔
          segments.map (fun segment ↦ (segment.value? project.lookup).getD segment.written) =
            values := by
      rw [hreplaces, ← List.forall₂_eq_eq_eq, List.forall₂_map_left_iff]
    simp only [Placeholder.substituteLenient, map_eq_ok, Placeholder.expandLenient_eq_join, hvalues,
      exists_and_left, exists_eq_left', @eq_comm _ value]

/-! ## Resolved projects -/

/-- The effective properties of a resolved project are the properties that it or an ancestor
declares. The value of each is the text of the nearest declaration, expanded once in the scope of
the resolved project. The declarations collected from the root down are those found from the project
up. -/
theorem effectiveProperties_of_resolve_iff (h : resolve policy d supplied = .ok project) :
    (∀ name, name ∈ project.effectiveProperties.keys ↔
      ∃ level ∈ project.selfAndAncestors, name ∈ level.declared.properties.keys) ∧
    (∀ name value, project.effectiveProperties.get? name = some value ↔
      ∃ text, project.DeclaresNearest name text ∧ project.ExpandsTo policy text value) ∧
    ∀ name text, (project.declaredProperties.get? name = some text ↔
        project.DeclaresNearest name text) ∧
      (project.declaredProperty? name = some text ↔ project.DeclaresNearest name text) := by
  have heffective := effectiveProperties_of_resolve h
  refine ⟨fun name ↦ ?_, fun name value ↦ ?_, fun name text ↦ ⟨?_, declaredProperty?_eq_some_iff⟩⟩
  · rw [SortedMap.keys_of_mapM heffective, SortedMap.mem_keys_iff, get?_declaredProperties,
      Option.isSome_iff_exists, ← exists_declaresNearest_iff]
    simp only [declaredProperty?_eq_some_iff]
  · rw [SortedMap.get?_of_mapM heffective]
    simp only [get?_declaredProperties, declaredProperty?_eq_some_iff, expand_eq_ok_iff_expandsTo]
  · rw [get?_declaredProperties, declaredProperty?_eq_some_iff]

def templateRoot : Descriptor :=
  { (default : Descriptor) with
    artifactId := "root"
    properties := SortedMap.ofList [("base", "/srv"), ("out", "$\x7bbase\x7d/out")]
    location := "/w/project.json" }

/-- A project that inherits both properties and declares the one that the other refers to anew. -/
def templateLeaf : Descriptor :=
  { (default : Descriptor) with
    artifactId := "leaf"
    parentRef := some ⟨none, "root", none, none⟩
    properties := SortedMap.ofList [("base", "$\x7bproject.basedir\x7d")]
    location := "/w/leaf/project.json" }

def templateRootProject : Project :=
  { extend templateRoot [] with
    effectiveProperties := SortedMap.ofList [("base", "/srv"), ("out", "/srv/out")] }

/-- What the second project is resolved to. The inherited text takes up the declaration of the
second project, whose own reference stays. -/
def templateLeafProject : Project :=
  { extend templateLeaf [templateRootProject] with
    effectiveProperties :=
      SortedMap.ofList [("base", "/w/leaf"), ("out", "$\x7bproject.basedir\x7d/out")] }

theorem resolve_templateRoot :
    resolve .fail templateRoot none = .ok templateRootProject :=
  rfl

theorem resolve_templateLeaf :
    resolve .fail templateLeaf (some templateRootProject) = .ok templateLeafProject :=
  rfl

theorem templateLeaf_effectiveProperties :
    resolve .fail templateRoot none = .ok templateRootProject ∧
      resolve .fail templateLeaf (some templateRootProject) = .ok templateLeafProject ∧
      "out" ∈ templateLeafProject.effectiveProperties.keys ∧
      ∃ text, templateLeafProject.DeclaresNearest "out" text ∧
        templateLeafProject.ExpandsTo .fail text "$\x7bproject.basedir\x7d/out" := by
  obtain ⟨hkeys, hvalues, -⟩ := effectiveProperties_of_resolve_iff resolve_templateLeaf
  refine ⟨resolve_templateRoot, resolve_templateLeaf,
    (hkeys "out").2 ⟨templateRootProject, ?_, ?_⟩, ?_⟩
  · exact List.mem_cons_of_mem _ (List.mem_singleton_self _)
  · decide
  · exact (hvalues "out" _).1 rfl

end Reactor.Project

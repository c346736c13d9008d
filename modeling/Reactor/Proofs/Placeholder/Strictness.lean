import Reactor.Proofs.Placeholder

/-!
# Strict and lenient expansion

The two ways to expand a text differ only on references to undefined names: a strict expansion
fails at the first of them, and a lenient one leaves them in place. So a lenient expansion is a
strict one for which each of these names stands for the reference itself.
-/

namespace Reactor.Placeholder

variable {lookup : String → Option String} {segments : List Segment} {segment : Segment}
  {name : String} {text : String}

/-! ## The first undefined name -/

/-- A name is the first undefined one of some segments if it is not defined and all the names before
it are. -/
def FirstUndefined (lookup : String → Option String) (segments : List Segment) (name : String) :
    Prop :=
  ∃ before after, segments = before ++ .property name :: after ∧ lookup name = none ∧
    ∀ other, .property other ∈ before → (lookup other).isSome = true

theorem firstUndefined_cons_of_isSome (h : (segment.value? lookup).isSome = true) :
    FirstUndefined lookup (segment :: segments) name ↔ FirstUndefined lookup segments name := by
  constructor
  · rintro ⟨before, after, hsegments, hname, hbefore⟩
    cases before with
    | nil =>
      obtain rfl := (List.cons.inj hsegments).1
      rw [Segment.value?, hname] at h
      cases h
    | cons first before =>
      refine ⟨before, after, (List.cons.inj hsegments).2, hname, fun other hother ↦ ?_⟩
      exact hbefore other (List.mem_cons_of_mem _ hother)
  · rintro ⟨before, after, hsegments, hname, hbefore⟩
    refine ⟨segment :: before, after, by rw [hsegments, List.cons_append], hname, ?_⟩
    intro other hother
    rcases List.mem_cons.1 hother with rfl | hother
    · exact h
    · exact hbefore other hother

theorem firstUndefined_property_cons_of_none {other : String} (h : lookup other = none) :
    FirstUndefined lookup (.property other :: segments) name ↔ name = other := by
  constructor
  · rintro ⟨before, after, hsegments, hname, hbefore⟩
    cases before with
    | nil => exact (Segment.property.inj (List.cons.inj hsegments).1).symm
    | cons first before =>
      obtain rfl := (List.cons.inj hsegments).1
      have hsome := hbefore other List.mem_cons_self
      rw [h] at hsome
      cases hsome
  · rintro rfl
    exact ⟨[], segments, rfl, h, by simp⟩

theorem not_firstUndefined_nil : ¬FirstUndefined lookup [] name := by
  rintro ⟨before, after, hsegments, -⟩
  simp at hsegments

/-- A strict expansion fails at the first undefined name. -/
theorem expand_eq_error_iff {failure : Failure} :
    expand lookup segments = .error failure ↔
      ∃ name, FirstUndefined lookup segments name ∧ failure = .unresolved name := by
  induction segments with
  | nil => simp [expand, not_firstUndefined_nil]
  | cons segment rest ih =>
    cases segment with
    | literal text =>
      have hvalue : ((Segment.literal text).value? lookup).isSome = true := rfl
      simp only [expand, map_eq_error, ih, firstUndefined_cons_of_isSome hvalue]
    | property name =>
      rw [expand]
      cases hname : lookup name with
      | none => simp [firstUndefined_property_cons_of_none hname, @eq_comm _ failure]
      | some value =>
        have hvalue : ((Segment.property name).value? lookup).isSome = true := by
          rw [Segment.value?, hname, Option.isSome_some]
        simp only [map_eq_error, ih, firstUndefined_cons_of_isSome hvalue]

theorem expand_eq_ok_iff_expandLenient {result : String} :
    expand lookup segments = .ok result ↔
      (∀ name, .property name ∈ segments → (lookup name).isSome = true) ∧
        result = expandLenient lookup segments := by
  constructor
  · intro h
    exact ⟨exists_expand_iff.1 ⟨result, h⟩, (expandLenient_of_expand h).symm⟩
  · rintro ⟨hdefined, hresult⟩
    obtain ⟨strict, hstrict⟩ := exists_expand_iff.2 hdefined
    rw [hstrict, hresult, expandLenient_of_expand hstrict]

/-! ## References that stay in place -/

/-- The names that a text refers to, in reading order. -/
def references (text : String) : List String :=
  match parse text with
  | .ok segments => segments.filterMap fun
    | .literal _ => none
    | .property name => some name
  | .error _ => []

/-- The look-up that finds the reference itself for each undefined name of a text. -/
def keepReferences (lookup : String → Option String) (text name : String) : Option String :=
  (lookup name).or (if name ∈ references text then some (reference name) else none)

theorem mem_references_iff : name ∈ references text ↔ RefersTo text name := by
  unfold references RefersTo
  cases hparse : parse text with
  | error failure => simp
  | ok segments =>
    simp only [List.mem_filterMap, Except.ok.injEq, exists_eq_left']
    constructor
    · rintro ⟨segment, hsegment, hname⟩
      cases segment with
      | literal text => cases hname
      | property other =>
        obtain rfl := Option.some.inj hname
        exact hsegment
    · intro h
      exact ⟨.property name, h, rfl⟩

theorem keepReferences_of_refersTo (h : RefersTo text name) :
    keepReferences lookup text name = some ((lookup name).getD (reference name)) := by
  rw [keepReferences, if_pos (mem_references_iff.2 h)]
  cases lookup name <;> rfl

theorem expand_of_getD {lookup' : String → Option String}
    (h : ∀ name, .property name ∈ segments →
      lookup' name = some ((lookup name).getD (reference name))) :
    expand lookup' segments = .ok (expandLenient lookup segments) := by
  induction segments with
  | nil => rfl
  | cons segment rest ih =>
    have hrest := ih fun name hname ↦ h name (List.mem_cons_of_mem _ hname)
    cases segment with
    | literal text =>
      rw [expand, hrest, expandLenient]
      rfl
    | property name =>
      rw [expand, h name List.mem_cons_self, hrest, expandLenient]
      rfl

theorem substitute_keepReferences (lookup : String → Option String) (text : String) :
    substitute (keepReferences lookup text) text = substituteLenient lookup text := by
  unfold substitute substituteLenient
  cases hparse : parse text with
  | error failure => rfl
  | ok segments =>
    apply expand_of_getD
    intro name hname
    exact keepReferences_of_refersTo ⟨segments, hparse, hname⟩

/-! ## Both ways on one text -/

/-- Neither way expands a text that cannot be parsed. Otherwise the lenient way always succeeds, and
the strict way gives the same text, or fails at the first undefined name if there is one. Only the
names in the text matter. -/
theorem substitute_and_substituteLenient (lookup : String → Option String) (text : String) :
    (∀ failure, parse text = .error failure →
      substitute lookup text = .error failure ∧ substituteLenient lookup text = .error failure) ∧
    (∀ segments, parse text = .ok segments → ∃ lenient,
      substituteLenient lookup text = .ok lenient ∧
      (∀ strict, substitute lookup text = .ok strict ↔
        (∀ name, .property name ∈ segments → (lookup name).isSome = true) ∧ strict = lenient) ∧
      ∀ failure, substitute lookup text = .error failure ↔
        ∃ name, FirstUndefined lookup segments name ∧ failure = .unresolved name) ∧
    substituteLenient lookup text = substitute (keepReferences lookup text) text ∧
    ∀ lookup', (∀ name, RefersTo text name → lookup name = lookup' name) →
      substitute lookup text = substitute lookup' text ∧
        substituteLenient lookup text = substituteLenient lookup' text := by
  refine ⟨?_, ?_, ?_, ?_⟩
  · intro failure hparse
    rw [substitute, substituteLenient, hparse]
    exact ⟨rfl, rfl⟩
  · intro segments hparse
    have hstrict : substitute lookup text = expand lookup segments := by
      rw [substitute, hparse]
      rfl
    have hlenient : substituteLenient lookup text = .ok (expandLenient lookup segments) := by
      rw [substituteLenient, hparse]
      rfl
    rw [hstrict, hlenient]
    exact ⟨expandLenient lookup segments, rfl, fun _ ↦ expand_eq_ok_iff_expandLenient,
      fun _ ↦ expand_eq_error_iff⟩
  · exact (substitute_keepReferences lookup text).symm
  · intro lookup' h
    exact ⟨substitute_congr h, substituteLenient_congr h⟩

end Reactor.Placeholder

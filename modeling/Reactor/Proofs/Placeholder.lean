import Mathlib.Data.List.Infix
import Reactor.Placeholder
import Reactor.Proofs.Outcome

/-!
# What an expansion depends on

An expansion looks up the names that the text refers to and no others. A strict expansion of a
well-formed text succeeds exactly when each of these names is defined, so a text without any
reference always expands.
-/

namespace Reactor.Placeholder

variable {lookup lookup' : String → Option String} {segments : List Segment} {text : String}

theorem expand_congr (h : ∀ name, .property name ∈ segments → lookup name = lookup' name) :
    expand lookup segments = expand lookup' segments := by
  induction segments with
  | nil => rfl
  | cons segment rest ih =>
    have hrest := ih fun name hname ↦ h name (List.mem_cons_of_mem _ hname)
    cases segment with
    | literal text => rw [expand, expand, hrest]
    | property name => rw [expand, expand, hrest, h name List.mem_cons_self]

theorem expandLenient_congr (h : ∀ name, .property name ∈ segments → lookup name = lookup' name) :
    expandLenient lookup segments = expandLenient lookup' segments := by
  induction segments with
  | nil => rfl
  | cons segment rest ih =>
    have hrest := ih fun name hname ↦ h name (List.mem_cons_of_mem _ hname)
    cases segment with
    | literal text => rw [expandLenient, expandLenient, hrest]
    | property name =>
      rw [expandLenient, expandLenient, hrest, h name List.mem_cons_self]

/-- Whether a text refers to a name. A text that cannot be parsed refers to none. -/
def RefersTo (text name : String) : Prop :=
  ∃ segments, parse text = .ok segments ∧ .property name ∈ segments

theorem substitute_congr (h : ∀ name, RefersTo text name → lookup name = lookup' name) :
    substitute lookup text = substitute lookup' text := by
  unfold substitute
  cases hparse : parse text with
  | error failure => rfl
  | ok segments => exact expand_congr fun name hname ↦ h name ⟨segments, hparse, hname⟩

theorem substituteLenient_congr (h : ∀ name, RefersTo text name → lookup name = lookup' name) :
    substituteLenient lookup text = substituteLenient lookup' text := by
  unfold substituteLenient
  cases hparse : parse text with
  | error failure => rfl
  | ok segments =>
    have hexpand := expandLenient_congr fun name hname ↦ h name ⟨segments, hparse, hname⟩
    exact congrArg Except.ok hexpand

/-! ## Segment by segment -/

/-- What a segment stands for, if it is literal text or refers to a name that is defined. -/
def Segment.value? (lookup : String → Option String) : Segment → Option String
  | literal text => some text
  | property name => lookup name

/-- A segment as it is written. A reference is written without blanks around its name. -/
def Segment.written : Segment → String
  | literal text => text
  | property name => reference name

/-- A strict expansion puts together what the segments stand for. -/
theorem expand_eq_ok_iff {value : String} :
    expand lookup segments = .ok value ↔ ∃ values,
      List.Forall₂ (fun segment value ↦ segment.value? lookup = some value) segments values ∧
        value = String.join values := by
  induction segments generalizing value with
  | nil =>
    simp only [expand, List.forall₂_nil_left_iff, exists_eq_left]
    exact ⟨fun h ↦ (Except.ok.inj h).symm, fun h ↦ congrArg Except.ok h.symm⟩
  | cons segment rest ih =>
    have hsegment : expand lookup (segment :: rest) = .ok value ↔ ∃ head tail,
        segment.value? lookup = some head ∧ expand lookup rest = .ok tail ∧
          value = head ++ tail := by
      cases segment with
      | literal text =>
        rw [expand, map_eq_ok]
        simp [Segment.value?, @eq_comm _ value]
      | property name =>
        rw [expand]
        cases hname : lookup name with
        | none => simp [Segment.value?, hname]
        | some text => simp [map_eq_ok, Segment.value?, hname, @eq_comm _ value]
    rw [hsegment]
    constructor
    · rintro ⟨head, tail, hhead, htail, rfl⟩
      obtain ⟨values, hvalues, rfl⟩ := ih.1 htail
      exact ⟨head :: values, .cons hhead hvalues, String.join_cons.symm⟩
    · rintro ⟨values, hvalues, rfl⟩
      obtain ⟨head, tail, hhead, htail, rfl⟩ := List.forall₂_cons_left_iff.1 hvalues
      exact ⟨head, String.join tail, hhead, ih.2 ⟨tail, htail, rfl⟩, String.join_cons⟩

/-- A lenient expansion leaves a segment as it is written if it stands for nothing. -/
theorem expandLenient_eq_join :
    expandLenient lookup segments = String.join (segments.map fun segment ↦
      (segment.value? lookup).getD segment.written) := by
  induction segments with
  | nil => rfl
  | cons segment rest ih =>
    rw [List.map_cons, String.join_cons, ← ih]
    cases segment <;> rfl

theorem expandLenient_of_expand {value : String} (h : expand lookup segments = .ok value) :
    expandLenient lookup segments = value := by
  induction segments generalizing value with
  | nil => exact Except.ok.inj h
  | cons segment rest ih =>
    cases segment with
    | literal text =>
      rw [expand] at h
      obtain ⟨tail, htail, rfl⟩ := map_eq_ok.1 h
      rw [expandLenient, ih htail]
    | property name =>
      rw [expand] at h
      cases hname : lookup name with
      | none => simp [hname] at h
      | some text =>
        simp only [hname] at h
        obtain ⟨tail, htail, rfl⟩ := map_eq_ok.1 h
        rw [expandLenient, hname, Option.getD_some, ih htail]

/-- Where a strict expansion succeeds, a lenient one finds nothing to leave in place. -/
theorem carriesOver_substituteLenient (lookup : String → Option String) (text : String) :
    CarriesOver (substitute lookup text) (substituteLenient lookup text) := by
  intro value h
  obtain ⟨segments, hsegments, hvalue⟩ := bind_eq_ok.1 h
  exact map_eq_ok.2 ⟨segments, hsegments, expandLenient_of_expand hvalue⟩

/-! ## Success -/

theorem exists_expand_iff :
    (∃ result, expand lookup segments = .ok result) ↔
      ∀ name, .property name ∈ segments → (lookup name).isSome = true := by
  induction segments with
  | nil => simp [expand]
  | cons segment rest ih =>
    cases segment with
    | literal text =>
      simp only [expand, map_eq_ok, List.mem_cons, reduceCtorEq, false_or, ← ih]
      constructor
      · rintro ⟨-, result, hresult, -⟩
        exact ⟨result, hresult⟩
      · rintro ⟨result, hresult⟩
        exact ⟨text ++ result, result, hresult, rfl⟩
    | property name =>
      simp only [expand, List.mem_cons, Segment.property.injEq]
      cases hname : lookup name with
      | none => simp [hname]
      | some value =>
        simp only [map_eq_ok]
        constructor
        · rintro ⟨-, result, hresult, -⟩ other (rfl | hother)
          · rw [hname, Option.isSome_some]
          · exact ih.1 ⟨result, hresult⟩ other hother
        · intro h
          obtain ⟨result, hresult⟩ := ih.2 fun other hother ↦ h other (.inr hother)
          exact ⟨value ++ result, result, hresult, rfl⟩

/-- A strict expansion succeeds if and only if the text can be parsed and every name in it is
defined. -/
theorem exists_substitute_iff :
    (∃ result, substitute lookup text = .ok result) ↔
      (∃ segments, parse text = .ok segments) ∧
        ∀ name, RefersTo text name → (lookup name).isSome = true := by
  unfold substitute RefersTo
  cases hparse : parse text with
  | error failure => simp [bind, Except.bind]
  | ok segments =>
    have hbind : (Except.ok segments >>= expand lookup) = expand lookup segments := rfl
    rw [hbind, exists_expand_iff]
    simp

/-- Defining more names never makes a strict expansion fail. -/
theorem exists_substitute_mono
    (hdefined : ∀ name, (lookup name).isSome = true → (lookup' name).isSome = true)
    (h : ∃ result, substitute lookup text = .ok result) :
    ∃ result, substitute lookup' text = .ok result := by
  obtain ⟨hparse, hnames⟩ := exists_substitute_iff.1 h
  exact exists_substitute_iff.2 ⟨hparse, fun name hname ↦ hdefined name (hnames name hname)⟩

/-! ## Failure -/

section Failure

variable {P : Failure → Prop} (hunclosed : ∀ position, P (.unclosed position))
  (hempty : ∀ position, P (.empty position))

include hunclosed hempty

/-- A text is read without regard to what is defined. -/
theorem failsOnly_scan (position : Nat) (state : Scan) (chars : List Char) :
    FailsOnly P (scan position state chars) := by
  fun_induction scan position state chars with
  | case1 position read => exact .ok _
  | case2 position read rest ih => exact ih
  | case3 position read rest hbrace ih => exact ih
  | case4 position read rest ih => exact ih.map _
  | case5 position read c rest hescape hdollars hbrace ih => exact ih
  | case6 position start read => exact .error (hunclosed start)
  | case7 position start read rest name hname => exact .error (hempty start)
  | case8 position start read rest name hname ih => exact ih.map _
  | case9 position start read c rest hclose ih => exact ih

theorem failsOnly_parse (text : String) : FailsOnly P (parse text) :=
  failsOnly_scan hunclosed hempty 0 (.literal []) text.toList

/-- A lenient expansion misses no name. -/
theorem failsOnly_substituteLenient (lookup : String → Option String) (text : String) :
    FailsOnly P (substituteLenient lookup text) :=
  (failsOnly_parse hunclosed hempty text).map _

omit hunclosed hempty in
theorem failsOnly_expand (hunresolved : ∀ name, lookup name = none → P (.unresolved name))
    (segments : List Segment) : FailsOnly P (expand lookup segments) := by
  induction segments with
  | nil => exact .ok _
  | cons segment rest ih =>
    cases segment with
    | literal text => exact ih.map _
    | property name =>
      rw [expand]
      cases hname : lookup name with
      | none => exact .error (hunresolved name hname)
      | some value => exact ih.map _

/-- A strict expansion misses undefined names only. -/
theorem failsOnly_substitute (hunresolved : ∀ name, lookup name = none → P (.unresolved name))
    (text : String) : FailsOnly P (substitute lookup text) :=
  (failsOnly_parse hunclosed hempty text).bind fun segments _ ↦
    failsOnly_expand hunresolved segments

end Failure

/-! ## Texts without references -/

/-- A text in which no dollar sign is followed by an opening brace. -/
def IsPlain (text : String) : Prop :=
  ¬['$', '{'] <:+: text.toList

instance (text : String) : Decidable (IsPlain text) :=
  inferInstanceAs (Decidable (¬_))

theorem scan_of_plain {chars : List Char} (h : ¬['$', '{'] <:+: chars) (position : Nat)
    (read : List Char) :
    scan position (.literal read) chars = .ok (pending (chars.reverse ++ read)) := by
  generalize hstate : Scan.literal read = state
  fun_induction scan position state chars generalizing read with
  | case1 position read =>
    obtain rfl := Scan.literal.inj hstate
    rfl
  | case2 position read rest ih => exact absurd ⟨['$'], rest, rfl⟩ h
  | case3 position read rest hbrace ih =>
    obtain rfl := Scan.literal.inj hstate
    have hrest := ih (fun hrest ↦ h (List.infix_cons (List.infix_cons hrest))) _ rfl
    simpa using hrest
  | case4 position read rest ih => exact absurd ⟨[], rest, rfl⟩ h
  | case5 position read c rest hescape hdollars hbrace ih =>
    obtain rfl := Scan.literal.inj hstate
    have hrest := ih (fun hrest ↦ h (List.infix_cons hrest)) _ rfl
    simpa using hrest
  | _ => cases hstate -- The scan never enters a placeholder.

theorem parse_of_plain (h : IsPlain text) : parse text = .ok (pending text.toList.reverse) := by
  rw [parse, scan_of_plain h, List.append_nil]

theorem expand_pending (read : List Char) :
    expand lookup (pending read) = .ok (String.ofList read.reverse) := by
  cases read with
  | nil => rfl
  | cons c read => simp [pending, expand, Functor.map, Except.map]

theorem expandLenient_pending (read : List Char) :
    expandLenient lookup (pending read) = String.ofList read.reverse := by
  cases read with
  | nil => rfl
  | cons c read => simp [pending, expandLenient]

/-- A plain text expands to itself whatever is defined. -/
theorem substitute_of_plain (h : IsPlain text) : substitute lookup text = .ok text := by
  have hparsed : substitute lookup text = expand lookup (pending text.toList.reverse) := by
    rw [substitute, parse_of_plain h]
    rfl
  rw [hparsed, expand_pending, List.reverse_reverse, String.ofList_toList]

theorem substituteLenient_of_plain (h : IsPlain text) :
    substituteLenient lookup text = .ok text := by
  have hparsed : substituteLenient lookup text =
      .ok (expandLenient lookup (pending text.toList.reverse)) := by
    rw [substituteLenient, parse_of_plain h]
    rfl
  rw [hparsed, expandLenient_pending, List.reverse_reverse, String.ofList_toList]

end Reactor.Placeholder

import Reactor.Proofs.Script.Rejections
import Reactor.Proofs.Value.Refusals

/-!
# Parts that are shown as the whole

Where the whole document or all of the data is rejected, `<root>` is shown for the place. The same
is shown for some of the parts, and exactly for these: a key may be empty and then leaves no trace
in the pointer, and the last key may have just this text.
-/

namespace Reactor

open Text (Utf8.bytesOf)
open Value (Pointer Rejection IsFirstRefused IsRefused ofJson)

variable {steps : List Step} {reason : Unsupported}

/-- Whether steps to a part are shown like no steps at all: they go through fields with empty keys,
and the key of the last one may instead be the text for the root. -/
inductive IsMistakenForRoot : List Step → Prop
  | unnamed : IsMistakenForRoot [.field ""]
  | namesake : IsMistakenForRoot [.field "<root>"]
  | under {steps : List Step} (h : IsMistakenForRoot steps) : IsMistakenForRoot (.field "" :: steps)

theorem isMistakenForRoot_unnamed_cons :
    IsMistakenForRoot (.field "" :: steps) ↔ steps = [] ∨ IsMistakenForRoot steps := by
  constructor
  · intro h
    generalize hwhole : Step.field "" :: steps = whole at h
    cases h with
    | unnamed => exact .inl (List.cons.inj hwhole).2
    | namesake => simp at hwhole
    | under h => exact .inr ((List.cons.inj hwhole).2 ▸ h)
  · rintro (rfl | h)
    · exact .unnamed
    · exact .under h

theorem isMistakenForRoot_cons_of_ne {next : Step} (h : next ≠ .field "") :
    IsMistakenForRoot (next :: steps) ↔ next = .field "<root>" ∧ steps = [] := by
  constructor
  · rintro (_ | _ | _)
    · exact absurd rfl h
    · exact ⟨rfl, rfl⟩
    · exact absurd rfl h
  · rintro ⟨rfl, rfl⟩
    exact .namesake

theorem Value.Pointer.step_root_eq_empty_iff {next : Step} :
    root.step next = "" ↔ next = .field "" := by
  cases next with
  | field key => simp [step, entry, root]
  | item index => simp [step, item_eq_append, Step.text]

theorem Value.Pointer.step_root_eq_root_iff {next : Step} :
    root.step next = "<root>" ↔ next = .field "<root>" := by
  cases next with
  | field key => simp [step, entry, root]
  | item index =>
    have hne : root.item index ≠ "<root>" := by
      intro heq
      have hchars := congrArg String.toList heq
      simp [item_eq_append, Step.text, root] at hchars
    simpa [step] using hne

/-- A pointer is shown as the root for the root itself and for the parts that are mistaken for
it. -/
theorem Value.Pointer.shown_along_root_eq_root_iff :
    (root.along steps).shown = "<root>" ↔ steps = [] ∨ IsMistakenForRoot steps := by
  induction steps with
  | nil => simp [along, shown, root]
  | cons next rest ih =>
    rw [or_iff_right (List.cons_ne_nil next rest)]
    by_cases hnext : next = .field ""
    · subst hnext
      have halong : root.along (.field "" :: rest) = root.along rest := rfl
      rw [halong, ih, isMistakenForRoot_unnamed_cons]
    · have hfirst : root.step next ≠ "" := mt step_root_eq_empty_iff.1 hnext
      have hne : root.step next ++ stepsText rest ≠ "" := by simp [hfirst]
      rw [along_root_cons hfirst, shown, if_neg (by simpa using hne), append_stepsText_eq_root_iff,
        step_root_eq_root_iff, isMistakenForRoot_cons_of_ne hnext]

example : (Pointer.root.along [.field "", .field "", .field "<root>"]).shown = "<root>" := by
  decide

/-- Whether an outcome is a rejection exactly if some part is offending, for the reason for which it
is, and the place is shown as the root exactly for the whole and for parts mistaken for it. -/
structure ShowsOffender (outcome : Except Rejection Value)
    (IsOffender : List Step → Unsupported → Prop) : Prop where
  exists_offender : ∀ rejection, outcome = .error rejection →
    ∃ steps, IsOffender steps rejection.reason
  shown : ∀ steps reason, IsOffender steps reason → ∃ pointer : Pointer,
    outcome = .error ⟨pointer, reason⟩ ∧
      (pointer.shown = "<root>" ↔ steps = [] ∨ IsMistakenForRoot steps)

/-- A document is rejected for its first refused part, and data for the part at which conversion
stops. Either place is shown as the root exactly if it is the root or mistaken for it. -/
theorem rejected_shown_eq_root_iff (document : Json) (data : Script.Data) :
    ShowsOffender (ofJson document) (IsFirstRefused document) ∧
      ShowsOffender (data.toValue .root) data.StopsAt := by
  refine ⟨⟨fun rejection h ↦ ?_, fun steps reason h ↦ ?_⟩,
    ⟨fun rejection h ↦ ?_, fun steps reason h ↦ ?_⟩⟩
  · obtain ⟨steps, hfirst, -⟩ := Value.exists_isFirstRefused document h
    exact ⟨steps, hfirst⟩
  · exact ⟨_, h.ofJson_eq, Pointer.shown_along_root_eq_root_iff⟩
  · obtain ⟨steps, hstops, -⟩ := data.exists_stopsAt h
    exact ⟨steps, hstops⟩
  · exact ⟨_, h.toValue_eq .root, Pointer.shown_along_root_eq_root_iff⟩

/-! ## Parts under empty keys -/

theorem isFirstRefused_of_only_field {part : Json} (key : String)
    (h : IsFirstRefused part steps reason) :
    IsFirstRefused (.object [(key, part)]) (.field key :: steps) reason := by
  have hparts : (Json.object [(key, part)]).parts = [] ++ (.field key, part) :: [] := rfl
  exact h.of_part hparts (by simp)

theorem stopsAt_of_only_field {data : Script.Data} (key : String) (h : data.StopsAt steps reason) :
    (Script.Data.table 0 [(.string (Utf8.bytesOf key), data)]).StopsAt (.field key :: steps)
      reason :=
  .field (by simp) (List.nil_append _).symm (by simp) h

/-- A null in a field with the text for the root as its key, which is itself in an unnamed field. -/
def namesakeNull : Json :=
  .object [("", .object [("<root>", .null)])]

def listedFunction : Script.Data :=
  .table 0 [(.string (Utf8.bytesOf "modules"),
    .table 2 [(.integer 1, .bool true), (.integer 2, .other "function")])]

theorem isFirstRefused_namesakeNull :
    IsFirstRefused namesakeNull [.field "", .field "<root>"] .nullValue :=
  isFirstRefused_of_only_field ""
    (isFirstRefused_of_only_field "<root>" IsRefused.null.isFirstRefused)

theorem stopsAt_listedFunction :
    listedFunction.StopsAt [.field "modules", .item 2] (.otherType "function") := by
  refine stopsAt_of_only_field "modules" (.item (by decide) (by decide) ?_ ?_)
  · intro earlier hearlier
    obtain rfl : earlier = 0 := by omega
    exact ⟨.bool true, fun _ ↦ rfl⟩
  · exact .other "function"

theorem rejected_shown_namesakeNull :
    (∃ pointer : Pointer, ofJson namesakeNull = .error ⟨pointer, .nullValue⟩ ∧
      pointer.shown = "<root>") ∧
    ∃ pointer : Pointer, listedFunction.toValue .root = .error ⟨pointer, .otherType "function"⟩ ∧
      pointer.shown ≠ "<root>" := by
  obtain ⟨hdocument, hdata⟩ := rejected_shown_eq_root_iff namesakeNull listedFunction
  constructor
  · obtain ⟨pointer, hread, hshown⟩ := hdocument.shown _ _ isFirstRefused_namesakeNull
    exact ⟨pointer, hread, hshown.2 (.inr (.under .namesake))⟩
  · obtain ⟨pointer, hread, hshown⟩ := hdata.shown _ _ stopsAt_listedFunction
    refine ⟨pointer, hread, fun hroot ↦ ?_⟩
    rcases hshown.1 hroot with hnil | hmistaken
    · cases hnil
    · have hkey := (isMistakenForRoot_cons_of_ne (by decide)).1 hmistaken
      exact absurd hkey.2 (by decide)

/-- A part is not the whole, but under an empty key it is shown as if it were, in a document as well
as in data. -/
theorem unnamed_shown_eq_root :
    (ofJson (.object [("", .null)]) = .error ⟨"", .nullValue⟩ ∧
      IsFirstRefused (.object [("", .null)]) [.field ""] .nullValue) ∧
    ((Script.Data.table 0 [(.string [], .other "function")]).toValue .root =
        .error ⟨"", .otherType "function"⟩ ∧
      (Script.Data.table 0 [(.string [], .other "function")]).StopsAt [.field ""]
        (.otherType "function")) ∧
    Pointer.shown "" = "<root>" := by
  refine ⟨⟨rfl, ?_⟩, ⟨rfl, ?_⟩, rfl⟩
  · exact isFirstRefused_of_only_field "" IsRefused.null.isFirstRefused
  · exact stopsAt_of_only_field "" (.other "function")

end Reactor

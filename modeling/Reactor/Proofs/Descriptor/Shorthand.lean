import Reactor.Proofs.Descriptor.WellFormed

/-!
# References in short form

A reference to a parent may be written as one text of up to three parts with a colon between them.
What is read are the parts without the white space at their ends. The text of a reference that was
read in this way is read as the same reference again, so it tells which reference it is.
-/

namespace Reactor.ParentRef

open Text (isBlankText trim split)

variable {text : String} {ref : ParentRef} {parts : List String}

/-- Whether a text is a short form of a reference: it has parts with a colon between them, of which
none is blank, and without the white space at their ends they are the coordinates. -/
def IsShortForm (text : String) (ref : ParentRef) : Prop :=
  ∃ parts trimmed : List String, text = ":".intercalate parts ∧
    (∀ part ∈ parts, ':' ∉ part.toList ∧ isBlankText part = false) ∧
    List.Forall₂ Text.IsTrimOf trimmed parts ∧ IsMadeOf trimmed ref

theorem IsMadeOf.ne_nil (h : IsMadeOf parts ref) : parts ≠ [] := by
  cases h <;> simp

theorem IsMadeOf.text_eq (h : IsMadeOf parts ref) : ref.text = ":".intercalate parts := by
  cases h with
  | artifact artifactId => simp [ParentRef.text, coordinatesText]
  | group groupId artifactId => simp [ParentRef.text, coordinatesText]
  | version groupId artifactId version =>
    simp [ParentRef.text, coordinatesText, String.append_assoc]

theorem map_trim_eq_iff {trimmed : List String} :
    parts.map trim = trimmed ↔ List.Forall₂ Text.IsTrimOf trimmed parts := by
  have hrel : Text.IsTrimOf = fun trimmed part ↦ trimmed = trim part := by
    ext trimmed part
    rw [← Text.trim_eq_iff, eq_comm]
  rw [hrel, ← List.forall₂_map_right_iff, List.forall₂_eq_eq_eq, eq_comm]

theorem isShortForm_iff_split : IsShortForm text ref ↔
    IsMadeOf ((split ':' text).map trim) ref ∧
      ∀ part ∈ split ':' text, isBlankText part = false := by
  constructor
  · rintro ⟨parts, trimmed, htext, hparts, htrimmed, hmade⟩
    have hmap : parts.map trim = trimmed := map_trim_eq_iff.2 htrimmed
    have hne : parts ≠ [] := by
      rintro rfl
      exact hmade.ne_nil hmap.symm
    have hsplit : split ':' text = parts :=
      Text.split_eq_iff.2 ⟨htext, hne, fun part hpart ↦ (hparts part hpart).1⟩
    rw [hsplit, hmap]
    exact ⟨hmade, fun part hpart ↦ (hparts part hpart).2⟩
  · rintro ⟨hmade, hblank⟩
    obtain ⟨htext, -, hcolon⟩ := Text.split_eq_iff.1 (Eq.refl (split ':' text))
    exact ⟨_, _, htext, fun part hpart ↦ ⟨hcolon part hpart, hblank part hpart⟩,
      map_trim_eq_iff.1 rfl, hmade⟩

/-- Parts that are already trimmed are read as they are. -/
theorem IsMadeOf.ofCoordinates?_text (h : IsMadeOf parts ref)
    (hparts : ∀ part ∈ parts, ':' ∉ part.toList ∧ isBlankText part = false ∧ trim part = part) :
    ofCoordinates? ref.text = some ref := by
  have hsplit : split ':' ref.text = parts :=
    Text.split_eq_iff.2 ⟨h.text_eq, h.ne_nil, fun part hpart ↦ (hparts part hpart).1⟩
  have htrim : parts.map trim = parts :=
    (List.map_congr_left fun part hpart ↦ (hparts part hpart).2.2).trans (List.map_id parts)
  rw [ofCoordinates?_eq_some_iff, hsplit, htrim]
  exact ⟨h, fun part hpart ↦ (hparts part hpart).2.1⟩

/-- The text of a reference in short form is a short form of it. -/
theorem ofCoordinates?_text (h : ofCoordinates? text = some ref) :
    ofCoordinates? ref.text = some ref := by
  obtain ⟨hmade, hblank⟩ := ofCoordinates?_eq_some_iff.1 h
  refine hmade.ofCoordinates?_text (List.forall_mem_map.2 fun part hpart ↦ ⟨?_, ?_, ?_⟩)
  · intro hcolon
    rw [trim, String.toList_ofList] at hcolon
    exact Text.notMem_split hpart (Text.mem_of_mem_trimChars hcolon)
  · rw [Text.isBlankText_trim, hblank part hpart]
  · exact Text.trim_trim part

/-- Exactly the texts of one to three parts that are not blank are read, as the reference that they
are a short form of. The text of this reference is read as it, so no other one has the same text. -/
theorem ofCoordinates?_roundTrip (text : String) :
    ((∃ ref, ofCoordinates? text = some ref) ↔ IsCoordinates text) ∧
      (∀ ref, ofCoordinates? text = some ref ↔ IsShortForm text ref) ∧
      (∀ ref, ofCoordinates? text = some ref → ofCoordinates? ref.text = some ref) ∧
      ∀ other ref ref', ofCoordinates? text = some ref → ofCoordinates? other = some ref' →
        ref ≠ ref' → ref.text ≠ ref'.text := by
  refine ⟨Descriptor.exists_ofCoordinates?_iff, fun ref ↦ ?_, fun ref ↦ ofCoordinates?_text, ?_⟩
  · rw [isShortForm_iff_split, ofCoordinates?_eq_some_iff]
  · intro other ref ref' href href' hne htext
    have hread := ofCoordinates?_text href
    rw [htext, ofCoordinates?_text href'] at hread
    exact hne (Option.some.inj hread.symm)

/-- Parts with a no-break space and an ideographic space around them, and one with a space in it. -/
def spacedText : String :=
  " org.jruby :\u00a0jruby parent\u3000:9.4"

def spacedRef : ParentRef :=
  ⟨some "org.jruby", "jruby parent", some "9.4", none⟩

theorem ofCoordinates?_spacedText : ofCoordinates? spacedText = some spacedRef := by
  decide +kernel

/-- The text of the reference is another short form of it. With two of its parts alone, the parts
are different coordinates. -/
theorem spacedRef_roundTrip :
    IsCoordinates spacedText ∧ IsShortForm spacedText spacedRef ∧ spacedRef.text ≠ spacedText ∧
      ofCoordinates? spacedRef.text = some spacedRef ∧
      ofCoordinates? "jruby parent: 9.4" = some ⟨some "jruby parent", "9.4", none, none⟩ ∧
      spacedRef.text ≠ "jruby parent:9.4" := by
  obtain ⟨hcoordinates, hshort, hback, hdistinct⟩ := ofCoordinates?_roundTrip spacedText
  have hpair : ofCoordinates? "jruby parent: 9.4" =
      some ⟨some "jruby parent", "9.4", none, none⟩ := by decide +kernel
  exact ⟨hcoordinates.1 ⟨_, ofCoordinates?_spacedText⟩, (hshort _).1 ofCoordinates?_spacedText,
    by decide +kernel, hback _ ofCoordinates?_spacedText, hpair,
    hdistinct _ _ _ ofCoordinates?_spacedText hpair (by decide)⟩

end Reactor.ParentRef

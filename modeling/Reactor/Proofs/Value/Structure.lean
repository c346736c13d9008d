import Reactor.Proofs.Value.Parts

/-!
# The structure of a document

A value has the structure of a document if the same steps lead to parts of both, and the part of the
value is of the same kind as the part of the document. Strings and booleans stay what they are. What
becomes of a number depends on the way in which the document is read, but it is a matter of this
number alone, however deep it stands.
-/

namespace Reactor

/-- Things that are related by one relation are related by a weaker one. -/
theorem rel_imp {α β : Type} {R S : α → β → Prop} {a? : Option α} {b? : Option β}
    (hRS : ∀ a ∈ a?, ∀ b, R a b → S a b) (h : Option.Rel R a? b?) : Option.Rel S a? b? := by
  cases h with
  | none => exact .none
  | some h => exact .some (hRS _ rfl _ h)

namespace Value

/-- Whether a value is of the same kind as a document, their parts aside. `R` tells which values
stand for a number. -/
inductive IsAlike (R : Number → Value → Prop) : Json → Value → Prop
  | bool (value : Bool) : IsAlike R (.bool value) (.bool value)
  | number {n : Number} {value : Value} (h : R n value) : IsAlike R (.number n) value
  | string (text : String) : IsAlike R (.string text) (.string text)
  | array (items : List Json) (values : List Value) : IsAlike R (.array items) (.sequence values)
  | object (entries : List (String × Json)) (fields : SortedMap Value) :
    IsAlike R (.object entries) (.mapping fields.entries)

/-- Whether a value has the structure of a document. -/
def HasStructureOf (R : Number → Value → Prop) (value : Value) (document : Json) : Prop :=
  ∀ steps, Option.Rel (IsAlike R) (document.at? steps) (value.at? steps)

/-! ## One value for one structure -/

/-- The parts of a value with the structure of a document have the structure of its parts. -/
theorem HasStructureOf.of_part {R : Number → Value → Prop} {value : Value} {document part : Json}
    {step : Step} (h : value.HasStructureOf R document) (hpart : document.part? step = some part) :
    ∃ value', value.part? step = some value' ∧ value'.HasStructureOf R part := by
  have hrel (steps : List Step) :
      Option.Rel (IsAlike R) (part.at? steps) ((value.part? step).bind (·.at? steps)) := by
    have hsteps := h (step :: steps)
    rw [Json.at?_cons, at?_cons, hpart] at hsteps
    exact hsteps
  cases hvalue : value.part? step with
  | none =>
    have hnone := hrel []
    rw [hvalue] at hnone
    cases hnone
  | some value' =>
    rw [hvalue] at hrel
    exact ⟨value', rfl, hrel⟩

theorem HasStructureOf.part?_eq_none {R : Number → Value → Prop} {value : Value} {document : Json}
    {step : Step} (h : value.HasStructureOf R document) (hpart : document.part? step = none) :
    value.part? step = none := by
  have hstep := h [step]
  rw [Json.at?_cons, at?_cons, hpart] at hstep
  cases hvalue : value.part? step with
  | none => rfl
  | some value' =>
    rw [hvalue] at hstep
    cases hstep

/-- At most one value has the structure of a document, as long as at most one stands for each of its
numbers. -/
theorem HasStructureOf.eq {R S : Number → Value → Prop} {value value' : Value} {document : Json}
    (h : value.HasStructureOf R document) (h' : value'.HasStructureOf S document)
    (hRS : ∀ n value value', R n value → S n value' → value = value') : value = value' := by
  have hpart (step : Step) : value.part? step = value'.part? step := by
    cases hpart : document.part? step with
    | none => rw [h.part?_eq_none hpart, h'.part?_eq_none hpart]
    | some part =>
      have hsmaller := Json.sizeOf_lt_of_mem_parts (Json.mem_parts_iff.2 hpart)
      obtain ⟨found, hfound, hstructure⟩ := h.of_part hpart
      obtain ⟨found', hfound', hstructure'⟩ := h'.of_part hpart
      rw [hfound, hfound', hstructure.eq hstructure' hRS]
  have halike : Option.Rel (IsAlike R) (some document) (some value) := h []
  have halike' : Option.Rel (IsAlike S) (some document) (some value') := h' []
  rcases halike with ⟨halike⟩
  rcases halike' with ⟨halike'⟩
  cases halike with
  | bool b =>
    cases halike'
    rfl
  | number hR =>
    cases halike' with
    | number hS => exact hRS _ _ _ hR hS
  | string text =>
    cases halike'
    rfl
  | array items values =>
    cases halike' with
    | array _ values' =>
      exact congrArg sequence (List.ext_getElem? fun index ↦ hpart (.item index))
  | object entries fields =>
    cases halike' with
    | object _ fields' =>
      have hfields : fields = fields' := by
        refine SortedMap.ext_get? fun key ↦ ?_
        have hkey := hpart (.field key)
        rw [part?, part?, field?_mapping, field?_mapping] at hkey
        exact hkey
      rw [hfields]
termination_by sizeOf document

/-! ## Reading part by part -/

/-- Whether documents are related to values as by reading them part by part. -/
structure ReadsParts (R : Number → Value → Prop) (Q : Json → Value → Prop) : Prop where
  alike : ∀ {document value}, Q document value → IsAlike R document value
  noParts : ∀ {n value}, R n value → ∀ step, value.part? step = none
  items : ∀ {items values}, Q (.array items) (.sequence values) → List.Forall₂ Q items values
  fields : ∀ {entries} {fields : SortedMap Value}, Q (.object entries) (.mapping fields.entries) →
    ∀ key, Option.Rel Q (Json.field? key (.object entries)) (fields.get? key)

namespace ReadsParts

variable {R : Number → Value → Prop} {Q : Json → Value → Prop} {document : Json} {value : Value}

/-- A step that leads to a part of a document leads to what is read for this part. -/
theorem rel_part? (h : ReadsParts R Q) (hread : Q document value) (step : Step) :
    Option.Rel Q (document.part? step) (value.part? step) := by
  have halike := h.alike hread
  cases halike with
  | bool b => cases step <;> exact .none
  | string text => cases step <;> exact .none
  | number hn =>
    rw [h.noParts hn]
    cases step <;> exact .none
  | array items values =>
    cases step with
    | field key => exact .none
    | item index => exact rel_getElem?_of_forall₂ (h.items hread) index
  | object entries fields =>
    cases step with
    | field key =>
      rw [Json.part?, part?, field?_mapping]
      exact h.fields hread key
    | item index => exact .none

/-- The same steps lead to a part of a document and to what is read for this part. -/
theorem rel_at? (h : ReadsParts R Q) (hread : Q document value) (steps : List Step) :
    Option.Rel Q (document.at? steps) (value.at? steps) :=
  rel_follow (fun _ _ hpart ↦ h.rel_part? hpart) hread steps

theorem hasStructureOf (h : ReadsParts R Q) (hread : Q document value) :
    value.HasStructureOf R document :=
  fun steps ↦ rel_imp (fun _ _ _ hpart ↦ h.alike hpart) (h.rel_at? hread steps)

end ReadsParts

/-! ## What is read for a descriptor -/

/-- Whether a value is just the number of a document. -/
inductive IsNumber : Number → Value → Prop
  | integer {n : Int} {k : Int64} (h : k.toInt = n) : IsNumber (.integer n) (.integer k)
  | float (x : Float) : IsNumber (.float x) (.float x)

theorem IsNumber.noParts {n : Number} {value : Value} (h : IsNumber n value) (step : Step) :
    value.part? step = none := by
  cases h <;> cases step <;> rfl

theorem toInt_ofInt {n : Int} (h : fitsSigned n = true) : (Int64.ofInt n).toInt = n := by
  simp only [fitsSigned, Bool.and_eq_true, decide_eq_true_eq] at h
  exact Int64.toInt_ofInt_of_le h.1 h.2

/-- Whether a value is read for a document, at whichever place it stands. -/
def IsReadFor (value : Value) (document : Json) : Prop :=
  ∃ pointer, ofOrdered pointer document.sortKeys = .ok value

namespace IsReadFor

variable {value : Value} {n : Number} {items : List Json} {entries : List (String × Json)}
  {document : Json}

theorem of_number (h : value.IsReadFor (.number n)) :
    (∃ k, n = .integer k ∧ fitsSigned k = true ∧ value = .integer (Int64.ofInt k)) ∨
      ∃ x, n = .float x ∧ value = .float x := by
  obtain ⟨pointer, hread⟩ := h
  rw [Json.sortKeys, ofOrdered] at hread
  cases n with
  | float x => exact .inr ⟨x, rfl, (Except.ok.inj hread).symm⟩
  | integer k =>
    rw [ofNumber] at hread
    split at hread
    case isTrue hfits => exact .inl ⟨k, rfl, hfits, (Except.ok.inj hread).symm⟩
    case isFalse => cases hread

theorem of_array (h : value.IsReadFor (.array items)) : ∃ values, value = .sequence values ∧
    List.Forall₂ (fun item value ↦ IsReadFor value item) items values := by
  obtain ⟨pointer, hread⟩ := h
  rw [Json.sortKeys, ofOrdered, Json.sortItems_eq_map] at hread
  obtain ⟨values, hvalues, rfl⟩ := map_eq_ok.1 hread
  exact ⟨values, rfl, List.forall₂_map_left_iff.1 (forall₂_of_itemsOfOrdered hvalues)⟩

theorem of_object (h : value.IsReadFor (.object entries)) : ∃ fields : SortedMap Value,
    value = .mapping fields.entries ∧
      (SortedMap.ofList entries).Related (fun document value ↦ IsReadFor value document)
        fields := by
  obtain ⟨pointer, hread⟩ := h
  -- Of several entries with one key, the last one is left when the keys are sorted.
  rw [Json.sortKeys, ofOrdered, Json.sortEntries_eq_map, SortedMap.ofList_map] at hread
  obtain ⟨fields, hfields, rfl⟩ := map_eq_ok.1 hread
  have hrelated : List.Forall₂ (fun a b ↦ a.1 = b.1 ∧ IsReadFor b.2 a.2)
      (SortedMap.ofList entries).entries fields :=
    List.forall₂_map_left_iff.1 (forall₂_of_entriesOfOrdered hfields)
  have hincreasing : fields.Pairwise fun a b ↦ a.1 < b.1 := by
    have hkeys := SortedMap.keys_eq_of_forall₂ (R := fun document value ↦ IsReadFor value document)
      hrelated
    rw [← List.pairwise_map, ← hkeys, List.pairwise_map]
    exact (SortedMap.ofList entries).increasing
  exact ⟨⟨fields, hincreasing⟩, rfl, hrelated⟩

theorem isAlike (h : value.IsReadFor document) : IsAlike IsNumber document value := by
  cases document with
  | null =>
    obtain ⟨pointer, hread⟩ := h
    cases hread
  | bool b =>
    obtain ⟨pointer, hread⟩ := h
    obtain rfl := Except.ok.inj hread
    exact .bool b
  | number n =>
    rcases h.of_number with ⟨k, rfl, hfits, rfl⟩ | ⟨x, rfl, rfl⟩
    · exact .number (.integer (toInt_ofInt hfits))
    · exact .number (.float x)
  | string text =>
    obtain ⟨pointer, hread⟩ := h
    obtain rfl := Except.ok.inj hread
    exact .string text
  | array items =>
    obtain ⟨values, rfl, -⟩ := h.of_array
    exact .array items values
  | object entries =>
    obtain ⟨fields, rfl, -⟩ := h.of_object
    exact .object entries fields

end IsReadFor

theorem readsParts_isReadFor :
    ReadsParts IsNumber fun document value ↦ IsReadFor value document where
  alike h := h.isAlike
  noParts h := h.noParts
  items h := by
    obtain ⟨values, heq, hvalues⟩ := h.of_array
    exact sequence.inj heq ▸ hvalues
  fields h key := by
    obtain ⟨fields, heq, hfields⟩ := h.of_object
    rw [SortedMap.eq_of_entries_eq (mapping.inj heq), Json.field?, ← SortedMap.get?_ofList]
    exact hfields.get? key

theorem rel_at? {document : Json} {value : Value} (h : ofJson document = .ok value)
    (steps : List Step) :
    Option.Rel (fun document value ↦ IsReadFor value document) (document.at? steps)
      (value.at? steps) :=
  readsParts_isReadFor.rel_at? ⟨.root, h⟩ steps

/-- What is read for a descriptor has the structure of the document, and its numbers. -/
theorem hasStructureOf_of_ofJson {document : Json} {value : Value}
    (h : ofJson document = .ok value) : value.HasStructureOf IsNumber document :=
  readsParts_isReadFor.hasStructureOf ⟨.root, h⟩

end Value

end Reactor

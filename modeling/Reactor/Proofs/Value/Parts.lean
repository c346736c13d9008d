import Reactor.Proofs.Descriptor.WellFormed
import Reactor.Proofs.Value.Ordered

/-!
# Parts of documents and values

Steps through the fields of objects and the items of arrays lead to the parts of a document, and
steps of the same kind to the parts of a value. The parts of one document have an order: fields come
in key order, and of several entries with one key only the last one is a part.
-/

namespace Reactor

/-- A step from the whole to one of its parts. -/
inductive Step where
  | field (key : String)
  | item (index : Nat)
  deriving DecidableEq

/-- Whether a step leads to an earlier part than another step from the same whole. -/
def Step.Before : Step → Step → Prop
  | field key, field key' => key < key'
  | item index, item index' => index < index'
  | _, _ => False

section Follow

variable {α β : Type} {part? : α → Step → Option α} {part?' : β → Step → Option β}

/-- The part that steps lead to, given where a single step leads. -/
def follow (part? : α → Step → Option α) (whole : α) (steps : List Step) : Option α :=
  steps.foldlM part? whole

theorem follow_cons (whole : α) (step : Step) (steps : List Step) :
    follow part? whole (step :: steps) =
      (part? whole step).bind fun part ↦ follow part? part steps := by
  rw [follow, List.foldlM_cons]
  rfl

/-- If each step leads to related parts, so do several steps. -/
theorem rel_follow {R : α → β → Prop}
    (hpart : ∀ a b, R a b → ∀ step, Option.Rel R (part? a step) (part?' b step)) {a : α} {b : β}
    (h : R a b) (steps : List Step) :
    Option.Rel R (follow part? a steps) (follow part?' b steps) := by
  induction steps generalizing a b with
  | nil => exact .some h
  | cons step steps ih =>
    have hstep := hpart a b h step
    rw [follow_cons, follow_cons]
    generalize part? a step = first at hstep ⊢
    generalize part?' b step = second at hstep ⊢
    cases hstep with
    | none => exact .none
    | some hrelated => exact ih hrelated

end Follow

namespace Json

def item? (index : Nat) : Json → Option Json
  | array items => items[index]?
  | _ => none

def part? (document : Json) : Step → Option Json
  | .field key => field? key document
  | .item index => item? index document

def at? (document : Json) (steps : List Step) : Option Json :=
  follow part? document steps

variable {document part : Json} {step : Step}

/-- The parts of a document, each with the step that leads to it, in order. -/
def parts : Json → List (Step × Json)
  | array items => items.zipIdx.map fun (item, index) ↦ (.item index, item)
  | object entries =>
    (SortedMap.ofList entries).entries.map fun (key, document) ↦ (.field key, document)
  | _ => []

theorem mem_parts_iff : (step, part) ∈ document.parts ↔ document.part? step = some part := by
  cases document with
  | array items =>
    cases step with
    | field key => simp [parts, part?, field?]
    | item index => simp [parts, part?, item?, List.mem_zipIdx_iff_getElem?]
  | object entries =>
    cases step with
    | field key =>
      have hentry : (key, part) ∈ (SortedMap.ofList entries).entries ↔
          (SortedMap.ofList entries).get? key = some part := SortedMap.mem_entries_iff
      rw [part?, field?, ← SortedMap.get?_ofList, ← hentry]
      simp [parts]
    | item index => simp [parts, part?, item?]
  | _ => cases step <;> simp [parts, part?, field?, item?]

theorem pairwise_parts (document : Json) :
    document.parts.Pairwise fun a b ↦ a.1.Before b.1 := by
  cases document with
  | array items =>
    rw [parts, List.pairwise_map, List.pairwise_iff_getElem]
    intro i j hi hj hij
    simpa [Step.Before] using hij
  | object entries =>
    rw [parts, List.pairwise_map]
    exact (SortedMap.ofList entries).increasing
  | _ => exact .nil

theorem sizeOf_lt_of_mem_parts (h : (step, part) ∈ document.parts) :
    sizeOf part < sizeOf document := by
  cases document with
  | array items =>
    obtain ⟨entry, hentry, heq⟩ := List.mem_map.1 h
    cases heq
    have hlt := List.sizeOf_lt_of_mem (List.fst_mem_of_mem_zipIdx hentry)
    simp only [array.sizeOf_spec]
    omega
  | object entries =>
    obtain ⟨⟨key, _⟩, hentry, heq⟩ := List.mem_map.1 h
    cases heq
    have hlt := List.sizeOf_lt_of_mem (SortedMap.mem_ofList hentry)
    simp only [object.sizeOf_spec, Prod.mk.sizeOf_spec] at hlt ⊢
    omega
  | _ => cases h

/-- Whether all parts of a document, and the document itself, have a property. -/
def AllParts (P : Json → Prop) (document : Json) : Prop :=
  ∀ steps part, document.at? steps = some part → P part

theorem at?_cons (document : Json) (step : Step) (steps : List Step) :
    document.at? (step :: steps) = (document.part? step).bind (·.at? steps) :=
  follow_cons document step steps

theorem AllParts.of_part {P : Json → Prop} (h : document.AllParts P)
    (hstep : document.part? step = some part) : part.AllParts P := by
  intro steps leaf hleaf
  refine h (step :: steps) leaf ?_
  rw [at?_cons, hstep]
  exact hleaf

theorem allParts_iff {P : Json → Prop} :
    document.AllParts P ↔ P document ∧ ∀ entry ∈ document.parts, entry.2.AllParts P := by
  constructor
  · intro h
    exact ⟨h [] document rfl, fun entry hentry ↦ h.of_part (mem_parts_iff.1 hentry)⟩
  · rintro ⟨hdocument, hparts⟩ steps part hat
    cases steps with
    | nil => exact Option.some.inj hat ▸ hdocument
    | cons step steps =>
      rw [at?_cons] at hat
      obtain ⟨between, hbetween, hat⟩ := Option.bind_eq_some_iff.1 hat
      exact hparts (step, between) (mem_parts_iff.2 hbetween) steps part hat

theorem AllParts.array {P : Json → Prop} {items : List Json} (h : P (.array items))
    (hitems : ∀ item ∈ items, item.AllParts P) : AllParts P (.array items) := by
  refine allParts_iff.2 ⟨h, fun entry hentry ↦ ?_⟩
  obtain ⟨pair, hpair, rfl⟩ := List.mem_map.1 hentry
  exact hitems _ (List.fst_mem_of_mem_zipIdx hpair)

theorem AllParts.object {P : Json → Prop} {entries : List (String × Json)} (h : P (.object entries))
    (hentries : ∀ entry ∈ entries, entry.2.AllParts P) : AllParts P (.object entries) := by
  refine allParts_iff.2 ⟨h, fun part hpart ↦ ?_⟩
  obtain ⟨entry, hentry, rfl⟩ := List.mem_map.1 hpart
  exact hentries entry (SortedMap.mem_ofList hentry)

theorem AllParts.of_parts_eq_nil {P : Json → Prop} (h : P document) (hparts : document.parts = []) :
    document.AllParts P :=
  allParts_iff.2 ⟨h, by simp [hparts]⟩

end Json

namespace Value

def item? (index : Nat) : Value → Option Value
  | sequence items => items[index]?
  | _ => none

def part? (value : Value) : Step → Option Value
  | .field key => field? key value
  | .item index => item? index value

def at? (value : Value) (steps : List Step) : Option Value :=
  follow part? value steps

theorem field?_mapping (fields : SortedMap Value) (key : String) :
    (mapping fields.entries).field? key = fields.get? key := by
  rw [field?, ← SortedMap.get?_ofList, SortedMap.ofList_entries]

theorem at?_cons (value : Value) (step : Step) (steps : List Step) :
    value.at? (step :: steps) = (value.part? step).bind (·.at? steps) :=
  follow_cons value step steps

end Value

end Reactor

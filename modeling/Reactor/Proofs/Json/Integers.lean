import Reactor.Proofs.Json.Written
import Reactor.Proofs.Value.Refusals

/-!
# Integers in documents

An integer that is written without fraction and exponent is kept exactly if it fits 64 bits with a
sign, and a document with an integer that only fits without a sign is refused. Integers beyond both
ranges are not refused: they become floats, and so does a zero with a sign.
-/

namespace Reactor

namespace Json.Written

/-- The part of a written document that a step leads to. Of several entries with one key the last
one counts. -/
def part? : Written → Step → Option Written
  | object entries, .field key => entries.reverse.lookup key
  | array items, .item index => items[index]?
  | _, _ => none

/-- The part of a written document that steps lead to. -/
def at? (written : Written) (steps : List Step) : Option Written :=
  follow part? written steps

variable {written : Written} {document : Json} {steps : List Step} {numeral : String}

/-- A step leads to a part of a written document and to what this part denotes. -/
theorem Denotes.rel_part? (h : Denotes written document) (step : Step) :
    Option.Rel Denotes (written.part? step) (document.part? step) := by
  cases written with
  | array items =>
    cases h with
    | array hitems =>
      cases step with
      | field key => exact .none
      | item index => exact rel_getElem?_of_forall₂ hitems index
  | object entries =>
    cases document with
    | object fields =>
      cases step with
      | field key =>
        exact SortedMap.rel_lookup_of_forall₂
          (List.forall₂_reverse_iff.2 (denotes_object_iff.1 h)) key
      | item index => exact .none
    | _ => cases h
  | _ =>
    cases h
    cases step <;> exact .none

theorem Denotes.rel_at? (h : Denotes written document) (steps : List Step) :
    Option.Rel Denotes (written.at? steps) (document.at? steps) :=
  rel_follow (fun _ _ h ↦ h.rel_part?) h steps

/-- A number in a written document denotes a number at the same place. -/
theorem Denotes.exists_number (h : Denotes written document)
    (hat : written.at? steps = some (.number numeral)) :
    ∃ n, document.at? steps = some (.number n) ∧ NumberOf numeral n := by
  have hrel := h.rel_at? steps
  rw [hat] at hrel
  generalize document.at? steps = part at hrel
  cases hrel with
  | some hpart =>
    cases hpart with
    | number hnumber => exact ⟨_, rfl, hnumber⟩

theorem Denotes.exists_written {part : Json} (h : Denotes written document)
    (hat : document.at? steps = some part) :
    ∃ other, written.at? steps = some other ∧ Denotes other part := by
  have hrel := h.rel_at? steps
  rw [hat] at hrel
  generalize written.at? steps = other at hrel
  cases hrel with
  | some hpart => exact ⟨_, rfl, hpart⟩

end Json.Written

namespace Value

/-- What is read for a number of a document. -/
theorem at?_of_number {document : Json} {value : Value} {steps : List Step} {n : Number}
    (h : ofJson document = .ok value) (hat : document.at? steps = some (.number n)) :
    (∃ k, n = .integer k ∧ fitsSigned k = true ∧
        value.at? steps = some (.integer (Int64.ofInt k))) ∨
      ∃ x, n = .float x ∧ value.at? steps = some (.float x) := by
  have hrel := rel_at? h steps
  rw [hat] at hrel
  generalize value.at? steps = part at hrel
  cases hrel with
  | some hpart =>
    rcases hpart.of_number with ⟨k, rfl, hfits, rfl⟩ | ⟨x, rfl, rfl⟩
    · exact .inl ⟨k, rfl, hfits, rfl⟩
    · exact .inr ⟨x, rfl, rfl⟩

end Value

namespace Format

open Json (Written NumberOf Fits)
open Value (fitsSigned)

/-- Whether an integer fits 64 bits only without a sign. -/
def OnlyUnsigned (n : Int) : Prop :=
  0x7FFFFFFFFFFFFFFF < n ∧ n ≤ 0xFFFFFFFFFFFFFFFF

/-- Whether a value holds the integers of a written document, those that fit 64 bits with a sign
exactly, and all others, with the zero with a sign, as floats. -/
structure HoldsIntegers (written : Written) (value : Value) : Prop where
  exact : ∀ (steps : List Step) (n : Int), written.at? steps = some (.number (toString n)) →
    fitsSigned n = true → ∃ k : Int64, value.at? steps = some (.integer k) ∧ k.toInt = n
  inexact : ∀ (steps : List Step) (n : Int), written.at? steps = some (.number (toString n)) →
    fitsSigned n = false → ¬OnlyUnsigned n ∧ ∃ x, value.at? steps = some (.float x)
  negativeZero : ∀ steps : List Step, written.at? steps = some (.number "-0") →
    ∃ x, value.at? steps = some (.float x)

/-- Whether a written document has a reason to be refused. -/
inductive IsRefusedFor (written : Written) : Unsupported → Prop
  | null {steps : List Step} (h : written.at? steps = some .null) : IsRefusedFor written .nullValue
  | outOfRange {steps : List Step} {n : Int} (h : written.at? steps = some (.number (toString n)))
    (hn : OnlyUnsigned n) : IsRefusedFor written (.outOfRange n)

theorem onlyUnsigned_iff {n : Int} : OnlyUnsigned n ↔ Fits n ∧ fitsSigned n = false := by
  simp only [OnlyUnsigned, Fits, fitsSigned, Bool.and_eq_false_iff, decide_eq_false_iff_not]
  omega

variable {text : String} {document : Json} {value : Value} {written : Written}

theorem readJson_of_parse (h : Json.parse text = .ok document) :
    readJson text = (Value.ofJson document).mapError .unsupported := by
  rw [readJson, h]

theorem fits_of_fitsSigned {n : Int} (h : fitsSigned n = true) : Fits n := by
  simp only [fitsSigned, Bool.and_eq_true, decide_eq_true_eq] at h
  unfold Fits
  omega

/-- What is read for an integer of a written document. -/
theorem at?_of_integer (hdenotes : Written.Denotes written document)
    (h : Value.ofJson document = .ok value) {steps : List Step} {n : Int}
    (hat : written.at? steps = some (.number (toString n))) :
    (fitsSigned n = true ∧ value.at? steps = some (.integer (Int64.ofInt n))) ∨
      ¬Fits n ∧ ∃ x, value.at? steps = some (.float x) := by
  obtain ⟨number, hnumber, hof⟩ := hdenotes.exists_number hat
  rcases hof.of_toString with ⟨-, rfl⟩ | ⟨hlarge, x, rfl⟩
  · rcases Value.at?_of_number h hnumber with ⟨k, hk, hfits, hvalue⟩ | ⟨_, hk, -⟩
    · obtain rfl := Number.integer.inj hk
      exact .inl ⟨hfits, hvalue⟩
    · cases hk
  · rcases Value.at?_of_number h hnumber with ⟨_, hk, -⟩ | ⟨x, -, hvalue⟩
    · cases hk
    · exact .inr ⟨hlarge, x, hvalue⟩

theorem holdsIntegers_of_ofJson (hdenotes : Written.Denotes written document)
    (h : Value.ofJson document = .ok value) : HoldsIntegers written value := by
  constructor
  · intro steps n hat hfits
    rcases at?_of_integer hdenotes h hat with ⟨-, hvalue⟩ | ⟨hlarge, -⟩
    · exact ⟨Int64.ofInt n, hvalue, Value.toInt_ofInt hfits⟩
    · exact absurd (fits_of_fitsSigned hfits) hlarge
  · -- An integer that fits without a sign only would have been refused.
    intro steps n hat hfits
    rcases at?_of_integer hdenotes h hat with ⟨hsigned, -⟩ | ⟨hlarge, hvalue⟩
    · rw [hsigned] at hfits
      cases hfits
    · exact ⟨fun hunsigned ↦ hlarge (onlyUnsigned_iff.1 hunsigned).1, hvalue⟩
  · intro steps hat
    obtain ⟨number, hnumber, hof⟩ := hdenotes.exists_number hat
    obtain ⟨_, rfl⟩ := hof.of_negativeZero
    rcases Value.at?_of_number h hnumber with ⟨_, hk, -⟩ | ⟨x, -, hvalue⟩
    · cases hk
    · exact ⟨x, hvalue⟩

theorem isRefusedFor_of_hasRefusedPart {reason : Unsupported}
    (hdenotes : Written.Denotes written document) (h : Value.HasRefusedPart document reason) :
    IsRefusedFor written reason := by
  obtain ⟨steps, part, hat, hrefused⟩ := h
  obtain ⟨other, hother, hpart⟩ := hdenotes.exists_written hat
  cases hrefused with
  | null =>
    cases hpart
    exact .null hother
  | outOfRange hfits =>
    cases hpart with
    | number hnumber =>
      obtain ⟨hunsigned, rfl⟩ := NumberOf.integer_iff.1 hnumber
      exact .outOfRange hother (onlyUnsigned_iff.2 ⟨hunsigned, hfits⟩)

/-- An integer that fits only without a sign keeps a document from having a value. -/
theorem ofJson_ne_ok (hdenotes : Written.Denotes written document) {steps : List Step} {n : Int}
    (hat : written.at? steps = some (.number (toString n))) (hn : OnlyUnsigned n) :
    Value.ofJson document ≠ .ok value := by
  intro h
  have hfits := (onlyUnsigned_iff.1 hn).2
  exact ((holdsIntegers_of_ofJson hdenotes h).inexact steps n hat hfits).1 hn

/-- The integers of a text that is accepted. The text is spelled by just one written document, in
which each number without point and exponent is an integer or a zero with a sign. If the document
has a value, this value holds the integers that fit 64 bits with a sign exactly, and all others as
floats. It has none if some integer fits 64 bits only without a sign, and whenever it has none, this
is because of such an integer or of a null. -/
theorem integers_of_readJson (h : Json.parse text = .ok document) : ∃ written : Written,
    (written.Spells text ∧ ∀ other : Written, other.Spells text → other = written) ∧
      (∀ steps numeral, written.at? steps = some (.number numeral) →
        (∀ c ∈ numeral.toList, c ≠ '.' ∧ c ≠ 'e' ∧ c ≠ 'E') →
          (∃ n : Int, numeral = toString n) ∨ numeral = "-0") ∧
      (∀ value, readJson text = .ok value → HoldsIntegers written value) ∧
      ((∃ steps n, written.at? steps = some (.number (toString n)) ∧ OnlyUnsigned n) →
        ∀ value, readJson text ≠ .ok value) ∧
      ((∀ value, readJson text ≠ .ok value) →
        ∃ rejection, readJson text = .error (.unsupported rejection) ∧
          IsRefusedFor written rejection.reason) := by
  obtain ⟨written, hspells, hdenotes⟩ := Json.exists_written_of_parse h
  rw [readJson_of_parse h]
  refine ⟨written, ⟨hspells, fun other hother ↦ hother.unique hspells⟩, ?_, ?_, ?_, ?_⟩
  · intro steps numeral hat hplain
    obtain ⟨n, -, hnumber⟩ := hdenotes.exists_number hat
    exact hnumber.eq_toString_or hplain
  · intro value hvalue
    exact holdsIntegers_of_ofJson hdenotes (mapError_eq_ok.1 hvalue)
  · rintro ⟨steps, n, hat, hn⟩ value hvalue
    exact ofJson_ne_ok hdenotes hat hn (mapError_eq_ok.1 hvalue)
  · intro hnone
    obtain ⟨rejection, hread⟩ : ∃ rejection, Value.ofJson document = .error rejection :=
      exists_error_of_ne_ok fun value hvalue ↦ hnone value (mapError_eq_ok.2 hvalue)
    rw [hread]
    rw [Value.ofJson] at hread
    exact ⟨rejection, rfl, isRefusedFor_of_hasRefusedPart hdenotes
      (Value.hasRefusedPart_of_ofOrdered document hread)⟩

/-! ## Integers beyond 64 bits -/

theorem exists_ok_of_isSome {ε α : Type} {outcome : Except ε α}
    (h : outcome.toOption.isSome = true) : ∃ a, outcome = .ok a := by
  cases outcome with
  | error failure => cases h
  | ok a => exact ⟨a, rfl⟩

/-- A number that fits, a zero with a sign, and an integer that fits in no way. -/
def mixedText : String :=
  "[7, -0, 18446744073709551616]"

theorem integers_of_readJson_mixedText : ∃ written : Written, written.Spells mixedText ∧
    ∃ value, readJson mixedText = .ok value ∧ HoldsIntegers written value := by
  obtain ⟨document, hparse⟩ : ∃ document, Json.parse mixedText = .ok document :=
    exists_ok_of_isSome (by decide +kernel)
  obtain ⟨value, hvalue⟩ : ∃ value, readJson mixedText = .ok value :=
    exists_ok_of_isSome (by decide +kernel)
  obtain ⟨written, ⟨hspells, -⟩, -, hholds, -⟩ := integers_of_readJson hparse
  exact ⟨written, hspells, value, hvalue, hholds value hvalue⟩

/-- Whether a float was read. -/
def readsFloat : Except FormatFailure Value → Bool
  | .ok (.float _) => true
  | _ => false

theorem exists_float_of_readsFloat {outcome : Except FormatFailure Value}
    (h : readsFloat outcome = true) : ∃ x, outcome = .ok (.float x) := by
  unfold readsFloat at h
  split at h
  case h_1 x => exact ⟨x, rfl⟩
  case h_2 => cases h

/-- An integer beyond the range of 64 bits is not refused, but becomes a float. -/
theorem readJson_large :
    (Written.number (toString (0x10000000000000000 : Int))).Spells "18446744073709551616" ∧
      ∃ x, readJson "18446744073709551616" = .ok (.float x) := by
  constructor
  · have hsymbols : Json.symbolsOf "18446744073709551616" =
        [.number (toString (0x10000000000000000 : Int))] := by decide +kernel
    exact hsymbols
  · exact exists_float_of_readsFloat (by decide +kernel)

end Format

end Reactor

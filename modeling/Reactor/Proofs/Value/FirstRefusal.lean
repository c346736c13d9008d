import Reactor.Proofs.Json.Integers

/-!
# Which documents have a value

A document has a value unless a null or an integer that fits 64 bits only without a sign occurs in
it. Otherwise the first of these in depth-first order is reported, and as long as all keys are
plain, the reported pointer leads to it and to nothing else.
-/

namespace Reactor

open Format (OnlyUnsigned onlyUnsigned_iff)

namespace Json

/-- Whether a document, if it is an integer, fits 64 bits with or without a sign. -/
def IsFitting : Json → Prop
  | number (.integer n) => Fits n
  | _ => True

/-- Whether the keys of a document, if it is an object, are plain. -/
def IsPlainlyKeyed : Json → Prop
  | object entries => ∀ entry ∈ entries, IsPlainKey entry.1
  | _ => True

/-- The documents that no value stands for. -/
inductive IsUnsupported : Json → Unsupported → Prop
  | null : IsUnsupported .null .nullValue
  | outOfRange {n : Int} (h : OnlyUnsigned n) : IsUnsupported (.number (.integer n)) (.outOfRange n)

variable {document part : Json} {reason : Unsupported} {steps : List Step}

/-- Every integer of a document that was read from a text fits 64 bits. -/
theorem allParts_isFitting_of_parse {text : String} (h : parse text = .ok document) :
    document.AllParts IsFitting := by
  obtain ⟨written, -, hdenotes⟩ := exists_written_of_parse h
  intro steps part hat
  obtain ⟨other, -, hpart⟩ := hdenotes.exists_written hat
  cases hpart with
  | @number numeral n hnumber =>
    cases n with
    | float x => exact trivial
    | integer n => exact (NumberOf.integer_iff.1 hnumber).1
  | _ => exact trivial

theorem isUnsupported_iff (h : part.IsFitting) :
    part.IsUnsupported reason ↔ Value.IsRefused part reason := by
  constructor
  · rintro (_ | hn)
    · exact .null
    · exact .outOfRange (onlyUnsigned_iff.1 hn).2
  · rintro (_ | hn)
    · exact .null
    · exact .outOfRange (onlyUnsigned_iff.2 ⟨h, hn⟩)

/-- Where all keys are plain, all steps to parts are. -/
theorem isPlain_of_mem (h : document.AllParts IsPlainlyKeyed)
    (hat : document.at? steps = some part) : ∀ step ∈ steps, step.IsPlain := by
  induction steps generalizing document with
  | nil => simp
  | cons step steps ih =>
    rw [at?_cons] at hat
    obtain ⟨between, hbetween, hat⟩ := Option.bind_eq_some_iff.1 hat
    refine List.forall_mem_cons.2 ⟨?_, ih (h.of_part hbetween) hat⟩
    cases step with
    | item index => exact trivial
    | field key =>
      cases document with
      | object entries =>
        have hkeys : IsPlainlyKeyed (object entries) := h [] _ rfl
        obtain ⟨before, after, hsplit, -⟩ := List.lookup_eq_some_iff.1 hbetween
        exact hkeys (key, between) (List.mem_reverse.1 (hsplit ▸ List.mem_append_cons_self))
      | _ => cases hbetween

end Json

namespace Value

variable {document : Json}

/-- What becomes of a document whose integers fit 64 bits with or without a sign: when it has a
value, that this value has the structure of the document, and which part is reported when it has
none. -/
theorem ofJson_outcome (hfits : document.AllParts Json.IsFitting) :
    ((∃ value, ofJson document = .ok value) ↔
      ∀ reason, document.AllParts fun part ↦ ¬part.IsUnsupported reason) ∧
    (∀ value, ofJson document = .ok value → value.HasStructureOf IsNumber document) ∧
    ∀ rejection, ofJson document = .error rejection → ∃ steps part,
      document.at? steps = some part ∧ part.IsUnsupported rejection.reason ∧
      (∀ other part' reason, document.at? other = some part' → part'.IsUnsupported reason →
        other = steps ∨ Precedes steps other) ∧
      (document.AllParts Json.IsPlainlyKeyed →
        rejection.pointer.shown = pathText steps ∧
        ∀ other : List Step, (∀ step ∈ other, step.IsPlain) →
          pathText other = rejection.pointer.shown → other = steps) := by
  have hfirst : ∀ rejection, ofJson document = .error rejection → ∃ steps,
      IsFirstRefused document steps rejection.reason ∧
        rejection.pointer = Pointer.root.along steps := fun rejection h ↦
    exists_isFirstRefused document h
  refine ⟨⟨?_, ?_⟩, fun value ↦ hasStructureOf_of_ofJson, ?_⟩
  · rintro ⟨value, hvalue⟩ reason steps part hat hunsupported
    have hread : value.IsReadFor document := ⟨.root, hvalue⟩
    obtain ⟨value', hvalue'⟩ := hread.at? hat
    exact hvalue'.not_isRefused ((Json.isUnsupported_iff (hfits steps part hat)).1 hunsupported)
  · intro hnone
    cases hread : ofJson document with
    | ok value => exact ⟨value, rfl⟩
    | error rejection =>
      obtain ⟨steps, ⟨⟨part, hat, hrefused⟩, -⟩, -⟩ := hfirst rejection hread
      exact absurd ((Json.isUnsupported_iff (hfits steps part hat)).2 hrefused)
        (hnone _ steps part hat)
  · intro rejection hread
    obtain ⟨steps, ⟨⟨part, hat, hrefused⟩, hleast⟩, hpointer⟩ := hfirst rejection hread
    refine ⟨steps, part, hat, (Json.isUnsupported_iff (hfits steps part hat)).2 hrefused, ?_, ?_⟩
    · intro other part' reason hother hunsupported
      exact hleast other part' reason hother
        ((Json.isUnsupported_iff (hfits other part' hother)).1 hunsupported)
    · intro hkeys
      have hplain := Json.isPlain_of_mem hkeys hat
      have hshown : rejection.pointer.shown = pathText steps := by
        rw [hpointer]
        exact Pointer.shown_along_root fun key hkey ↦ (hplain _ hkey).ne_empty
      refine ⟨hshown, fun other hother htext ↦ ?_⟩
      exact pathText_inj hother hplain (htext.trans hshown)

/-- Two parts that no value stands for. The first one in key order is the one written last. -/
def unsortedDocument : Json :=
  .object [("version", .number (.integer 0x8000000000000000)),
    ("modules", .array [.string "core", .null])]

theorem ofJson_outcome_unsortedDocument :
    unsortedDocument.AllParts Json.IsFitting ∧ unsortedDocument.AllParts Json.IsPlainlyKeyed ∧
      ofJson unsortedDocument = .error ⟨"modules[1]", .nullValue⟩ ∧
      ∀ other part reason, unsortedDocument.at? other = some part → part.IsUnsupported reason →
        other = [.field "modules", .item 1] ∨ Precedes [.field "modules", .item 1] other := by
  have hall {P : Json → Prop} (hobject : P unsortedDocument)
      (hnumber : P (.number (.integer 0x8000000000000000)))
      (harray : P (.array [.string "core", .null])) (hstring : P (.string "core"))
      (hnull : P .null) : unsortedDocument.AllParts P := by
    refine .object hobject (List.forall_mem_cons.2 ⟨.of_parts_eq_nil hnumber rfl,
      List.forall_mem_singleton.2 (.array harray (List.forall_mem_cons.2
        ⟨.of_parts_eq_nil hstring rfl, List.forall_mem_singleton.2 (.of_parts_eq_nil hnull rfl)⟩))⟩)
  have hmodules : IsPlainKey "modules" := ⟨by decide, by decide, by simp [isMark]⟩
  have hversion : IsPlainKey "version" := ⟨by decide, by decide, by simp [isMark]⟩
  have hfits : unsortedDocument.AllParts Json.IsFitting :=
    hall trivial (by simp [Json.IsFitting, Json.Fits]) trivial trivial trivial
  have hkeys : unsortedDocument.AllParts Json.IsPlainlyKeyed :=
    hall (List.forall_mem_cons.2 ⟨hversion, List.forall_mem_singleton.2 hmodules⟩) trivial trivial
      trivial trivial
  have hread : ofJson unsortedDocument = .error ⟨"modules[1]", .nullValue⟩ := rfl
  obtain ⟨-, -, hrefusal⟩ := ofJson_outcome hfits
  obtain ⟨steps, part, hat, -, hfirst, hpath⟩ := hrefusal _ hread
  obtain ⟨-, hunique⟩ := hpath hkeys
  obtain rfl := hunique [.field "modules", .item 1]
    (List.forall_mem_cons.2 ⟨hmodules, List.forall_mem_singleton.2 trivial⟩) (by decide +kernel)
  exact ⟨hfits, hkeys, hread, hfirst⟩

end Value

end Reactor

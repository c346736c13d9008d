import Reactor.Proofs.Value.Pointers
import Reactor.Proofs.Value.Structure

/-!
# The part for which a document is refused

A document is read part by part, in depth-first order: the fields of an object in key order, the
items of an array in order. Reading stops at the first part that has no value for what it is itself,
and the pointer that is reported is the one along the steps to this part.
-/

namespace Reactor

/-! ## Depth-first order -/

/-- Whether steps lead to an earlier part than other steps in depth-first order. -/
def Precedes : List Step → List Step → Prop :=
  List.Lex Step.Before

instance : Std.Asymm Step.Before where
  asymm step step' h h' := by
    cases step with
    | field key =>
      cases step' with
      | field key' => exact String.lt_asymm h h'
      | item _ => exact h
    | item index =>
      cases step' with
      | field _ => exact h
      | item index' => exact Nat.lt_asymm h h'

instance : Std.Asymm Precedes :=
  inferInstanceAs (Std.Asymm (List.Lex Step.Before))

namespace Value

variable {document part : Json} {pointer : Pointer} {rejection : Rejection} {reason : Unsupported}
  {step : Step} {steps : List Step}

/-! ## What a document is refused for -/

/-- Whether a document is refused for what it is itself, whatever its parts are. -/
inductive IsRefused : Json → Unsupported → Prop
  | null : IsRefused .null .nullValue
  | outOfRange {n : Int} (h : fitsSigned n = false) :
    IsRefused (.number (.integer n)) (.outOfRange n)

theorem IsRefused.parts_eq_nil (h : IsRefused document reason) : document.parts = [] := by
  cases h <;> rfl

/-- Nothing is read for a document that is refused. -/
theorem IsReadFor.not_isRefused {value : Value} (h : value.IsReadFor document) :
    ¬IsRefused document reason := by
  intro hrefused
  cases hrefused with
  | null =>
    obtain ⟨pointer, hread⟩ := h
    cases hread
  | outOfRange hfits =>
    rcases h.of_number with ⟨k, hk, hsigned, -⟩ | ⟨x, hx, -⟩
    · obtain rfl := Number.integer.inj hk
      rw [hsigned] at hfits
      cases hfits
    · cases hx

/-- What is read for a document has something that is read for each part of the document. -/
theorem IsReadFor.at? {value : Value} (h : value.IsReadFor document)
    (hat : document.at? steps = some part) : ∃ value : Value, value.IsReadFor part := by
  have hrel := readsParts_isReadFor.rel_at? h steps
  rw [hat] at hrel
  generalize value.at? steps = found at hrel
  cases hrel with
  | some hread => exact ⟨_, hread⟩

/-- Whether steps lead to the first part of a document that is refused, in depth-first order. -/
structure IsFirstRefused (document : Json) (steps : List Step) (reason : Unsupported) : Prop where
  refused : ∃ part, document.at? steps = some part ∧ IsRefused part reason
  first : ∀ other part reason, document.at? other = some part → IsRefused part reason →
    other = steps ∨ Precedes steps other

/-! ## Reading part by part -/

theorem itemsOfOrdered_eq_mapM (pointer : Pointer) (index : Nat) (items : List Json) :
    itemsOfOrdered pointer index (items.map Json.sortKeys) =
      (items.zipIdx index).mapM fun (item, index) ↦
        ofOrdered (pointer.item index) item.sortKeys := by
  induction items generalizing index with
  | nil => rfl
  | cons item rest ih =>
    rw [List.map_cons, itemsOfOrdered, List.zipIdx_cons, List.mapM_cons, ih]
    rfl

theorem entriesOfOrdered_eq_mapM (pointer : Pointer) (entries : List (String × Json)) :
    entriesOfOrdered pointer (entries.map fun entry ↦ (entry.1, entry.2.sortKeys)) =
      entries.mapM fun entry ↦
        (entry.1, ·) <$> ofOrdered (pointer.entry entry.1) entry.2.sortKeys := by
  induction entries with
  | nil => rfl
  | cons entry rest ih =>
    rw [List.map_cons, entriesOfOrdered, List.mapM_cons, ih]
    cases ofOrdered (pointer.entry entry.1) entry.2.sortKeys <;> rfl

/-- A document that is refused is refused for itself, or for the first of its parts that is. -/
theorem ofOrdered_eq_error_cases (h : ofOrdered pointer document.sortKeys = .error rejection) :
    (IsRefused document rejection.reason ∧ rejection.pointer = pointer) ∨
      ∃ before step part after, document.parts = before ++ (step, part) :: after ∧
        (∀ other ∈ before, ∃ value : Value, value.IsReadFor other.2) ∧
        ofOrdered (pointer.step step) part.sortKeys = .error rejection := by
  cases document with
  | null =>
    obtain rfl := Except.error.inj h
    exact .inl ⟨.null, rfl⟩
  | bool value => cases h
  | number n =>
    cases n with
    | float x => cases h
    | integer n =>
      rw [Json.sortKeys, ofOrdered, ofNumber] at h
      split at h
      case isTrue => cases h
      case isFalse hfits =>
        obtain rfl := Except.error.inj h
        exact .inl ⟨.outOfRange (by simpa using hfits), rfl⟩
  | string text => cases h
  | array items =>
    rw [Json.sortKeys, ofOrdered, map_eq_error, Json.sortItems_eq_map,
      itemsOfOrdered_eq_mapM] at h
    obtain ⟨before, ⟨item, index⟩, after, hitems, hbefore, herror⟩ := mapM_eq_error.1 h
    refine .inr ⟨_, .item index, item, _, by rw [Json.parts, hitems, List.map_append,
      List.map_cons], fun other hother ↦ ?_, herror⟩
    obtain ⟨entry, hentry, rfl⟩ := List.mem_map.1 hother
    obtain ⟨value, hvalue⟩ := hbefore entry hentry
    exact ⟨value, _, hvalue⟩
  | object entries =>
    rw [Json.sortKeys, ofOrdered, map_eq_error, Json.sortEntries_eq_map, SortedMap.ofList_map,
      SortedMap.map, entriesOfOrdered_eq_mapM] at h
    obtain ⟨before, ⟨key, part⟩, after, hentries, hbefore, herror⟩ := mapM_eq_error.1 h
    refine .inr ⟨_, .field key, part, _, by rw [Json.parts, hentries, List.map_append,
      List.map_cons], fun other hother ↦ ?_, map_eq_error.1 herror⟩
    obtain ⟨entry, hentry, rfl⟩ := List.mem_map.1 hother
    obtain ⟨_, hvalue⟩ := hbefore entry hentry
    obtain ⟨value, hvalue, -⟩ := map_eq_ok.1 hvalue
    exact ⟨value, _, hvalue⟩

/-- The first part that is refused lies in the first part in which anything is refused. -/
theorem IsFirstRefused.of_part {before after : List (Step × Json)}
    (hparts : document.parts = before ++ (step, part) :: after)
    (hbefore : ∀ other ∈ before, ∃ value : Value, value.IsReadFor other.2)
    (h : IsFirstRefused part steps reason) : IsFirstRefused document (step :: steps) reason := by
  have hstep : document.part? step = some part :=
    Json.mem_parts_iff.1 (hparts ▸ List.mem_append_cons_self)
  constructor
  · obtain ⟨leaf, hleaf, hrefused⟩ := h.refused
    refine ⟨leaf, ?_, hrefused⟩
    rw [Json.at?_cons, hstep]
    exact hleaf
  · intro other leaf reason' hat hrefused
    cases other with
    | nil =>
      obtain rfl := Option.some.inj hat
      rw [hrefused.parts_eq_nil] at hparts
      simp at hparts
    | cons next rest =>
      rw [Json.at?_cons] at hat
      obtain ⟨between, hbetween, hat⟩ := Option.bind_eq_some_iff.1 hat
      have hmem := Json.mem_parts_iff.2 hbetween
      have horder := document.pairwise_parts
      rw [hparts] at hmem horder
      obtain ⟨-, horder, -⟩ := List.pairwise_append.1 horder
      rcases List.mem_append.1 hmem with hmem | hmem
      · obtain ⟨value, hvalue⟩ := hbefore _ hmem
        obtain ⟨value', hvalue'⟩ := hvalue.at? hat
        exact absurd hrefused hvalue'.not_isRefused
      · rcases List.mem_cons.1 hmem with heq | hmem
        · cases heq
          exact (h.first rest leaf reason' hat hrefused).imp (congrArg (step :: ·)) List.Lex.cons
        · exact .inr (.rel ((List.pairwise_cons.1 horder).1 _ hmem))

theorem IsRefused.isFirstRefused (h : IsRefused document reason) :
    IsFirstRefused document [] reason := by
  refine ⟨⟨document, rfl, h⟩, fun other part reason' hat _ ↦ ?_⟩
  cases other with
  | nil => exact .inl rfl
  | cons next rest =>
    rw [Json.at?_cons] at hat
    obtain ⟨between, hbetween, -⟩ := Option.bind_eq_some_iff.1 hat
    have hmem := Json.mem_parts_iff.2 hbetween
    rw [h.parts_eq_nil] at hmem
    cases hmem

/-- A document is refused for the first part that is refused for what it is itself, and the pointer
is the one along the steps to this part. -/
theorem exists_isFirstRefused (document : Json) {pointer : Pointer} {rejection : Rejection}
    (h : ofOrdered pointer document.sortKeys = .error rejection) :
    ∃ steps, IsFirstRefused document steps rejection.reason ∧
      rejection.pointer = pointer.along steps := by
  rcases ofOrdered_eq_error_cases h with ⟨hrefused, hpointer⟩ |
    ⟨before, step, part, after, hparts, hbefore, herror⟩
  · exact ⟨[], hrefused.isFirstRefused, hpointer⟩
  · have hsmaller : sizeOf part < sizeOf document :=
      Json.sizeOf_lt_of_mem_parts (hparts ▸ List.mem_append_cons_self)
    obtain ⟨steps, hfirst, hpointer⟩ := exists_isFirstRefused part herror
    exact ⟨step :: steps, hfirst.of_part hparts hbefore, hpointer⟩
termination_by sizeOf document

theorem IsRefused.unique {reason' : Unsupported} (h : IsRefused document reason)
    (h' : IsRefused document reason') : reason = reason' := by
  cases h <;> cases h' <;> rfl

/-- Only one part of a document is the first that is refused. -/
theorem IsFirstRefused.unique {steps' : List Step} {reason' : Unsupported}
    (h : IsFirstRefused document steps reason) (h' : IsFirstRefused document steps' reason') :
    steps = steps' ∧ reason = reason' := by
  obtain ⟨part, hat, hrefused⟩ := h.refused
  obtain ⟨part', hat', hrefused'⟩ := h'.refused
  have hsteps : steps = steps' := by
    rcases h.first steps' part' reason' hat' hrefused' with heq | hprecedes
    · exact heq.symm
    · rcases h'.first steps part reason hat hrefused with heq | hprecedes'
      · exact heq
      · exact absurd hprecedes' (asymm hprecedes)
  subst hsteps
  obtain rfl := Option.some.inj (hat.symm.trans hat')
  exact ⟨rfl, hrefused.unique hrefused'⟩

/-- A document in which some part is refused has no value: it is refused for the first such part. -/
theorem IsFirstRefused.ofJson_eq (h : IsFirstRefused document steps reason) :
    ofJson document = .error ⟨Pointer.root.along steps, reason⟩ := by
  cases hread : ofJson document with
  | ok value =>
    obtain ⟨part, hat, hrefused⟩ := h.refused
    have hreadFor : value.IsReadFor document := ⟨.root, hread⟩
    obtain ⟨value', hvalue'⟩ := hreadFor.at? hat
    exact absurd hrefused hvalue'.not_isRefused
  | error rejection =>
    obtain ⟨pointer, reason'⟩ := rejection
    obtain ⟨steps', hfirst, hpointer⟩ := exists_isFirstRefused document hread
    obtain ⟨rfl, rfl⟩ := h.unique hfirst
    rw [← hpointer]

/-- Whether some part of a document is refused for a reason. -/
def HasRefusedPart (document : Json) (reason : Unsupported) : Prop :=
  ∃ steps part, document.at? steps = some part ∧ IsRefused part reason

/-- A document is only refused because of one of its parts. -/
theorem hasRefusedPart_of_ofOrdered (document : Json) {pointer : Pointer} {rejection : Rejection}
    (h : ofOrdered pointer document.sortKeys = .error rejection) :
    HasRefusedPart document rejection.reason := by
  obtain ⟨steps, hfirst, -⟩ := exists_isFirstRefused document h
  exact ⟨steps, hfirst.refused⟩

end Value

end Reactor

import Reactor.Proofs.Value.Parts

/-!
# Pointers as texts

The text of a pointer is written step by step: a key stands after a dot, unless it comes first, and
an index stands in brackets. As long as no key is empty, holds a dot or a bracket, or looks like the
pointer to the document itself, the text can be read back in one way only.
-/

namespace Reactor

/-- Whether a character keeps steps apart in the text of a pointer. -/
def isMark (c : Char) : Bool :=
  c = '.' || c = '[' || c = ']'

/-- Whether a key does not blur the text of a pointer. -/
structure IsPlainKey (key : String) : Prop where
  ne_empty : key ≠ ""
  ne_root : key ≠ "<root>"
  noMark : ∀ c ∈ key.toList, isMark c = false

namespace Step

/-- Whether a step leads to an item, or to a field with a plain key. -/
def IsPlain : Step → Prop
  | field key => IsPlainKey key
  | item _ => True

def text : Step → String
  | field key => "." ++ key
  | item index => "[" ++ toString index ++ "]"

end Step

def stepsText (steps : List Step) : String :=
  String.join (steps.map Step.text)

def pathText : List Step → String
  | [] => "<root>"
  | .field key :: rest => key ++ stepsText rest
  | .item index :: rest => stepsText (.item index :: rest)

@[simp]
theorem stepsText_nil : stepsText [] = "" := rfl

@[simp]
theorem stepsText_cons (step : Step) (steps : List Step) :
    stepsText (step :: steps) = step.text ++ stepsText steps := by
  rw [stepsText, List.map_cons, String.join_cons, stepsText]

/-! ## The pointer along steps -/

namespace Value.Pointer

variable {pointer : Pointer} {steps : List Step}

def step (pointer : Pointer) : Step → Pointer
  | .field key => pointer.entry key
  | .item index => pointer.item index

def along (pointer : Pointer) (steps : List Step) : Pointer :=
  steps.foldl step pointer

theorem item_eq_append (pointer : Pointer) (index : Nat) :
    pointer.item index = pointer ++ (Step.item index).text := by
  simp [item, Step.text, toString, String.append_assoc]

theorem step_of_ne_empty (h : pointer ≠ "") (next : Step) :
    pointer.step next = pointer ++ next.text := by
  cases next with
  | field key => rw [step, entry, if_neg (by simpa using h), Step.text, String.append_assoc]
  | item index => exact item_eq_append pointer index

/-- After the first step, the text of the next step is always the same. -/
theorem along_of_ne_empty (h : pointer ≠ "") :
    pointer.along steps = pointer ++ stepsText steps := by
  induction steps generalizing pointer with
  | nil => rw [stepsText_nil, String.append_empty, along, List.foldl_nil]
  | cons next rest ih =>
    have hne : pointer ++ next.text ≠ "" := by simp [h]
    rw [along, List.foldl_cons, step_of_ne_empty h, stepsText_cons, ← String.append_assoc]
    exact ih hne

theorem along_root_cons {next : Step} {rest : List Step} (h : root.step next ≠ "") :
    root.along (next :: rest) = root.step next ++ stepsText rest :=
  along_of_ne_empty h

/-- The pointer along steps from the root, as shown, is the text of the steps. -/
theorem shown_along_root (h : ∀ key, .field key ∈ steps → key ≠ "") :
    (root.along steps).shown = pathText steps := by
  cases steps with
  | nil => rfl
  | cons next rest =>
    have hfirst : root.step next ≠ "" ∧
        root.step next ++ stepsText rest = pathText (next :: rest) := by
      cases next with
      | field key => exact ⟨h key List.mem_cons_self, rfl⟩
      | item index =>
        rw [step, item_eq_append, root, String.empty_append, pathText, stepsText_cons]
        simp [Step.text]
    rw [along_root_cons hfirst.1, hfirst.2, shown, if_neg]
    rw [← hfirst.2]
    simp [hfirst.1]

example : (root.along [.field "modules", .item 1, .field "name"]).shown = "modules[1].name" := by
  decide +kernel

end Value.Pointer

/-! ## Reading a text back -/

/-- The characters up to the first one of a kind are the same in equal lists. -/
theorem eq_and_eq_of_append_eq {p : Char → Bool} {front front' back back' : List Char}
    (hfront : ∀ c ∈ front, p c = false) (hfront' : ∀ c ∈ front', p c = false)
    (hback : ∀ c ∈ back.head?, p c = true) (hback' : ∀ c ∈ back'.head?, p c = true)
    (h : front ++ back = front' ++ back') : front = front' ∧ back = back' := by
  have htake {before after : List Char} (hbefore : ∀ c ∈ before, p c = false)
      (hafter : ∀ c ∈ after.head?, p c = true) :
      (before ++ after).takeWhile (fun c ↦ !p c) = before := by
    rw [List.takeWhile_append_of_pos fun c hc ↦ by simp [hbefore c hc]]
    cases after with
    | nil => simp
    | cons c rest => simp [hafter c rfl]
  have heq : front = front' := by
    rw [← htake hfront hback, h, htake hfront' hback']
  exact ⟨heq, List.append_cancel_left (heq ▸ h)⟩

theorem isMark_of_mem_digits {index : Nat} {c : Char} (h : c ∈ (toString index).toList) :
    isMark c = false := by
  have hdigit : c.isDigit = true :=
    Nat.isDigit_of_mem_toDigits (by decide) (by decide) (Nat.toList_repr ▸ h)
  rw [isMark]
  by_contra hmark
  simp only [Bool.or_eq_true, decide_eq_true_eq, Bool.not_eq_false] at hmark
  rcases hmark with (rfl | rfl) | rfl <;> cases hdigit

theorem isMark_of_head?_stepsText {steps : List Step} :
    ∀ c ∈ (stepsText steps).toList.head?, isMark c = true := by
  cases steps with
  | nil => simp
  | cons next rest => cases next <;> simp [Step.text, isMark]

/-- The text of plain steps after others tells the steps. -/
theorem stepsText_inj {steps steps' : List Step} (h : ∀ step ∈ steps, step.IsPlain)
    (h' : ∀ step ∈ steps', step.IsPlain) (heq : stepsText steps = stepsText steps') :
    steps = steps' := by
  induction steps generalizing steps' with
  | nil =>
    cases steps' with
    | nil => rfl
    | cons next' rest' => cases next' <;> simp [Step.text] at heq
  | cons next rest ih =>
    cases steps' with
    | nil => cases next <;> simp [Step.text] at heq
    | cons next' rest' =>
      obtain ⟨hnext, hrest⟩ := List.forall_mem_cons.1 h
      obtain ⟨hnext', hrest'⟩ := List.forall_mem_cons.1 h'
      have hchars := congrArg String.toList heq
      cases next with
      | field key =>
        cases next' with
        | item index' => simp [Step.text] at hchars
        | field key' =>
          have hsplit : key.toList ++ (stepsText rest).toList =
              key'.toList ++ (stepsText rest').toList := by simpa [Step.text] using hchars
          obtain ⟨hkey, hback⟩ := eq_and_eq_of_append_eq hnext.noMark hnext'.noMark
            isMark_of_head?_stepsText isMark_of_head?_stepsText hsplit
          rw [String.toList_inj.1 hkey, ih hrest hrest' (String.toList_inj.1 hback)]
      | item index =>
        cases next' with
        | field key' => simp [Step.text] at hchars
        | item index' =>
          have hsplit : (toString index).toList ++ ']' :: (stepsText rest).toList =
              (toString index').toList ++ ']' :: (stepsText rest').toList := by
            simpa [Step.text] using hchars
          obtain ⟨hindex, hback⟩ := eq_and_eq_of_append_eq (p := isMark)
            (fun c ↦ isMark_of_mem_digits) (fun c ↦ isMark_of_mem_digits) (by simp [isMark])
            (by simp [isMark]) hsplit
          have htail := List.tail_eq_of_cons_eq hback
          rw [Nat.repr_injective (String.toList_inj.1 hindex),
            ih hrest hrest' (String.toList_inj.1 htail)]

/-- A text with steps after it is the one for the root only if there are no steps. -/
theorem append_stepsText_eq_root_iff {front : String} {steps : List Step} :
    front ++ stepsText steps = "<root>" ↔ front = "<root>" ∧ steps = [] := by
  constructor
  · intro heq
    cases steps with
    | nil => exact ⟨by simpa using heq, rfl⟩
    | cons next rest =>
      have hchars := congrArg String.toList heq
      rw [String.toList_append] at hchars
      -- A step that follows brings a dot or a bracket.
      obtain ⟨c, hc⟩ : ∃ c, (stepsText (next :: rest)).toList.head? = some c := by
        cases next <;> simp [Step.text]
      have hmark := isMark_of_head?_stepsText c hc
      have hmem : c ∈ "<root>".toList := hchars ▸ List.mem_append_right _ (List.mem_of_head? hc)
      have hplain : ∀ c ∈ "<root>".toList, isMark c = false := by simp [isMark]
      rw [hplain c hmem] at hmark
      cases hmark
  · rintro ⟨rfl, rfl⟩
    simp

theorem pathText_field_ne_root {key : String} (h : IsPlainKey key) (rest : List Step) :
    pathText (.field key :: rest) ≠ "<root>" := by
  intro heq
  exact h.ne_root (append_stepsText_eq_root_iff.1 heq).1

theorem pathText_item_ne_root (index : Nat) (rest : List Step) :
    pathText (.item index :: rest) ≠ "<root>" := by
  intro heq
  have hchars := congrArg String.toList heq
  simp [pathText, Step.text] at hchars

theorem pathText_field_ne_item {key : String} (h : IsPlainKey key) (index : Nat)
    (rest rest' : List Step) : pathText (.field key :: rest) ≠ pathText (.item index :: rest') := by
  intro heq
  have hchars := congrArg String.toList heq
  obtain ⟨c, cs, hkey⟩ := List.exists_cons_of_ne_nil (mt String.toList_eq_nil_iff.1 h.ne_empty)
  rw [pathText, pathText, String.toList_append, hkey] at hchars
  obtain rfl : c = '[' := by simpa [Step.text] using congrArg List.head? hchars
  have hmark := h.noMark '[' (hkey ▸ List.mem_cons_self)
  cases hmark

/-- The text of plain steps from the root tells the steps. -/
theorem pathText_inj {steps steps' : List Step} (h : ∀ step ∈ steps, step.IsPlain)
    (h' : ∀ step ∈ steps', step.IsPlain) (heq : pathText steps = pathText steps') :
    steps = steps' := by
  rcases steps with _ | ⟨key | index, rest⟩ <;> rcases steps' with _ | ⟨key' | index', rest'⟩
  · rfl
  · exact absurd heq.symm (pathText_field_ne_root (h' _ List.mem_cons_self) rest')
  · exact absurd heq.symm (pathText_item_ne_root index' rest')
  · exact absurd heq (pathText_field_ne_root (h _ List.mem_cons_self) rest)
  · -- With a dot in front, both are texts of steps that come after others.
    refine stepsText_inj h h' ?_
    rw [pathText, pathText] at heq
    rw [stepsText_cons, stepsText_cons, Step.text, Step.text, String.append_assoc, heq,
      ← String.append_assoc]
  · exact absurd heq (pathText_field_ne_item (h _ List.mem_cons_self) index' rest rest')
  · exact absurd heq (pathText_item_ne_root index rest)
  · exact absurd heq.symm (pathText_field_ne_item (h' _ List.mem_cons_self) index rest' rest)
  · exact stepsText_inj h h' heq

end Reactor

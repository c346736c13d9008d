import Mathlib.Data.List.DropRight
import Reactor.Text.Blank

/-!
# Trimming

A trimmed text is the one part of the text with nothing but white space around it and no white space
at its own ends. So it has nothing left to trim, and it is empty exactly if the text is blank.
-/

namespace Reactor.Text

variable {cs : List Char}

theorem trimChars_eq_rdropWhile (cs : List Char) :
    trimChars cs = (cs.dropWhile isBlank).rdropWhile isBlank :=
  rfl

theorem exists_eq_append_trimChars (cs : List Char) : ∃ front back,
    cs = front ++ trimChars cs ++ back ∧ (∀ c ∈ front, isBlank c = true) ∧
      ∀ c ∈ back, isBlank c = true := by
  refine ⟨cs.takeWhile isBlank, (cs.dropWhile isBlank).rtakeWhile isBlank, ?_,
    fun c ↦ List.mem_takeWhile_imp, fun c ↦ List.mem_rtakeWhile_imp⟩
  rw [trimChars_eq_rdropWhile, List.append_assoc, List.rdropWhile_append_rtakeWhile,
    List.takeWhile_append_dropWhile]

theorem trimChars_isInfix (cs : List Char) : trimChars cs <:+: cs := by
  obtain ⟨front, back, h, -⟩ := exists_eq_append_trimChars cs
  exact ⟨front, back, h.symm⟩

theorem mem_of_mem_trimChars {c : Char} (h : c ∈ trimChars cs) : c ∈ cs :=
  (trimChars_isInfix cs).subset h

theorem trimChars_eq_nil_iff : trimChars cs = [] ↔ ∀ c ∈ cs, isBlank c = true := by
  rw [trimChars_eq_rdropWhile, List.rdropWhile_eq_nil_iff]
  constructor
  · intro h c hc
    rw [← List.takeWhile_append_dropWhile (p := isBlank) (l := cs)] at hc
    rcases List.mem_append.1 hc with hc | hc
    · exact List.mem_takeWhile_imp hc
    · exact h c hc
  · intro h c hc
    exact h c ((List.dropWhile_suffix isBlank).subset hc)

/-- Nothing is left of a text without the blanks at its ends if it is blank. -/
theorem isEmpty_trim (s : String) : (trim s).isEmpty = isBlankText s := by
  rw [Bool.eq_iff_iff, String.isEmpty_iff, trim, String.ofList_eq_empty_iff, trimChars_eq_nil_iff,
    isBlankText, List.all_eq_true]

theorem trimChars_ne_nil_iff : trimChars cs ≠ [] ↔ ∃ c ∈ cs, isBlank c = false := by
  rw [ne_eq, trimChars_eq_nil_iff]
  push Not
  simp only [ne_eq, Bool.not_eq_true]

/-- Whether there is no white space at the two ends of a list of characters. -/
def IsTrimmed (cs : List Char) : Prop :=
  ∀ c, c ∈ cs.head? ∨ c ∈ cs.getLast? → isBlank c = false

theorem isTrimmed_trimChars (cs : List Char) : IsTrimmed (trimChars cs) := by
  rintro c (hfirst | hlast)
  · obtain ⟨blanks, hblanks⟩ := List.rdropWhile_prefix isBlank (cs.dropWhile isBlank)
    have hc := List.head?_dropWhile_not isBlank cs
    rw [trimChars_eq_rdropWhile] at hfirst
    rw [← hblanks, List.head?_append, hfirst] at hc
    simpa using hc
  · obtain ⟨hne, rfl⟩ := List.mem_getLast?_eq_getLast hlast
    exact Bool.eq_false_iff.2 (List.rdropWhile_last_not isBlank (cs.dropWhile isBlank) hne)

/-- White space around a list without white space at its ends is what is taken away. -/
theorem trimChars_append {front back : List Char} (hfront : ∀ c ∈ front, isBlank c = true)
    (hback : ∀ c ∈ back, isBlank c = true) (h : IsTrimmed cs) :
    trimChars (front ++ cs ++ back) = cs := by
  cases cs with
  | nil =>
    rw [List.append_nil, trimChars_eq_nil_iff]
    exact List.forall_mem_append.2 ⟨hfront, hback⟩
  | cons c rest =>
    have hhead : isBlank c = false := h c (.inl rfl)
    have hself : (c :: rest).rdropWhile isBlank = c :: rest :=
      List.rdropWhile_eq_self_iff.2 fun hne ↦ by
        simp [h _ (.inr (List.getLast?_eq_some_getLast hne))]
    have hback' : ∀ c ∈ back.reverse, isBlank c = true := by simpa using hback
    rw [trimChars_eq_rdropWhile, List.append_assoc, List.dropWhile_append_of_pos hfront,
      List.cons_append, List.dropWhile_cons_of_neg (by simp [hhead]), ← List.cons_append,
      List.rdropWhile, List.reverse_append, List.dropWhile_append_of_pos hback']
    exact hself

theorem trimChars_trimChars (cs : List Char) : trimChars (trimChars cs) = trimChars cs := by
  have h : trimChars ([] ++ trimChars cs ++ []) = trimChars cs :=
    trimChars_append (by simp) (by simp) (isTrimmed_trimChars cs)
  simpa using h

theorem trim_trim (s : String) : trim (trim s) = trim s := by
  unfold trim
  rw [String.toList_ofList, trimChars_trimChars]

/-- Whether a text is another one without the white space at its two ends. -/
structure IsTrimOf (trimmed s : String) : Prop where
  around : ∃ front back : String, s = front ++ trimmed ++ back ∧
    isBlankText front = true ∧ isBlankText back = true
  ends : IsTrimmed trimmed.toList

theorem trim_eq_iff {s trimmed : String} : trim s = trimmed ↔ IsTrimOf trimmed s := by
  constructor
  · rintro rfl
    obtain ⟨front, back, h, hfront, hback⟩ := exists_eq_append_trimChars s.toList
    refine ⟨⟨String.ofList front, String.ofList back, ?_, ?_, ?_⟩, ?_⟩
    · rw [trim, ← String.ofList_append, ← String.ofList_append, ← h, String.ofList_toList]
    · simpa [isBlankText] using hfront
    · simpa [isBlankText] using hback
    · rw [trim, String.toList_ofList]
      exact isTrimmed_trimChars s.toList
  · rintro ⟨⟨front, back, rfl, hfront, hback⟩, hends⟩
    rw [isBlankText, List.all_eq_true] at hfront hback
    rw [trim, String.toList_append, String.toList_append, trimChars_append hfront hback hends,
      String.ofList_toList]

theorem isBlankText_trim (s : String) : isBlankText (trim s) = isBlankText s := by
  rw [← isEmpty_trim, trim_trim, isEmpty_trim]

end Reactor.Text

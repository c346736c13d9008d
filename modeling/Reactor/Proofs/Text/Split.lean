import Reactor.Text.Split

/-!
# Splitting and joining

Splitting a text at a separator and joining its parts undo each other, as long as no part holds the
separator. So the parts of a text are the only ones without a separator that it can be joined from.
-/

namespace Reactor.Text

theorem splitChars_of_notMem {separator : Char} {cs : List Char} (h : separator ∉ cs) :
    splitChars separator cs = [cs] := by
  induction cs with
  | nil => rfl
  | cons c cs ih =>
    simp only [List.mem_cons, not_or] at h
    rw [splitChars, if_neg (Ne.symm h.1), ih h.2]

theorem splitChars_append {separator : Char} {part : List Char} (h : separator ∉ part)
    (rest : List Char) :
    splitChars separator (part ++ separator :: rest) = part :: splitChars separator rest := by
  induction part with
  | nil => simp [splitChars]
  | cons c cs ih =>
    simp only [List.mem_cons, not_or] at h
    rw [List.cons_append, splitChars, if_neg (Ne.symm h.1), ih h.2]

/-- The parts of a text with a separator are those before it, and then those after it. -/
theorem splitChars_append_cons (separator : Char) (before after : List Char) :
    splitChars separator (before ++ separator :: after) =
      splitChars separator before ++ splitChars separator after := by
  induction before with
  | nil => simp [splitChars]
  | cons c cs ih =>
    rw [List.cons_append, splitChars, splitChars, ih]
    split
    · rfl
    · cases hsplit : splitChars separator cs with
      | nil => exact absurd hsplit (splitChars_ne_nil separator cs)
      | cons part parts => rfl

theorem splitChars_intercalate {separator : Char} {parts : List (List Char)} (hparts : parts ≠ [])
    (h : ∀ part ∈ parts, separator ∉ part) :
    splitChars separator ([separator].intercalate parts) = parts := by
  induction parts with
  | nil => exact absurd rfl hparts
  | cons part rest ih =>
    cases rest with
    | nil => simpa using splitChars_of_notMem (h part List.mem_cons_self)
    | cons next rest =>
      have hrest := ih (by simp) fun other hother ↦ h other (List.mem_cons_of_mem _ hother)
      rw [List.intercalate_cons_cons, List.append_assoc, List.singleton_append,
        splitChars_append (h part List.mem_cons_self), hrest]

theorem notMem_splitChars (separator : Char) (cs : List Char) :
    ∀ part ∈ splitChars separator cs, separator ∉ part := by
  induction cs with
  | nil => simp [splitChars]
  | cons c cs ih =>
    rw [splitChars]
    split
    · simpa using ih
    · rename_i hne
      cases hsplit : splitChars separator cs with
      | nil => exact absurd hsplit (splitChars_ne_nil separator cs)
      | cons part parts =>
        rw [hsplit] at ih
        intro other hother
        rcases List.mem_cons.1 hother with rfl | hother
        · simpa [Ne.symm hne] using ih part List.mem_cons_self
        · exact ih other (List.mem_cons_of_mem _ hother)

theorem split_ne_nil (separator : Char) (s : String) : split separator s ≠ [] := by
  simpa [split] using splitChars_ne_nil separator s.toList

/-- No part of a text between separators holds a separator. -/
theorem notMem_split {separator : Char} {s part : String} (h : part ∈ split separator s) :
    separator ∉ part.toList := by
  obtain ⟨chars, hchars, rfl⟩ := List.mem_map.1 h
  simpa using notMem_splitChars separator s.toList chars hchars

theorem intercalate_splitChars (separator : Char) (cs : List Char) :
    [separator].intercalate (splitChars separator cs) = cs := by
  induction cs with
  | nil => rfl
  | cons c cs ih =>
    cases hsplit : splitChars separator cs with
    | nil => exact absurd hsplit (splitChars_ne_nil separator cs)
    | cons part parts =>
      rw [hsplit] at ih
      rw [splitChars, hsplit]
      split
      case isTrue hc =>
        rw [List.intercalate_cons_cons, ih, hc]
        rfl
      case isFalse =>
        cases parts with
        | nil => simpa using ih
        | cons next parts =>
          rw [List.intercalate_cons_cons] at ih ⊢
          rw [← ih]
          rfl

theorem map_toList_split (separator : Char) (s : String) :
    (split separator s).map String.toList = splitChars separator s.toList := by
  rw [split, List.map_map]
  simp [Function.comp_def]

theorem toList_intercalate_singleton (separator : Char) (parts : List String) :
    ((String.singleton separator).intercalate parts).toList =
      [separator].intercalate (parts.map String.toList) := by
  rw [String.toList_intercalate, String.toList_singleton]

theorem split_append_singleton_append (separator : Char) (before after : String) :
    split separator (before ++ String.singleton separator ++ after) =
      split separator before ++ split separator after := by
  have hchars : (before ++ String.singleton separator ++ after).toList =
      before.toList ++ separator :: after.toList := by
    simp
  rw [split, hchars, splitChars_append_cons, List.map_append, split, split]

/-- The parts of a text are those without a separator that it is joined from. -/
theorem split_eq_iff {separator : Char} {s : String} {parts : List String} :
    split separator s = parts ↔
      s = (String.singleton separator).intercalate parts ∧ parts ≠ [] ∧
        ∀ part ∈ parts, separator ∉ part.toList := by
  constructor
  · rintro rfl
    refine ⟨?_, split_ne_nil separator s, fun part hpart ↦ notMem_split hpart⟩
    apply String.toList_inj.1
    rw [toList_intercalate_singleton, map_toList_split, intercalate_splitChars]
  · rintro ⟨rfl, hparts, h⟩
    have hchars : ∀ chars ∈ parts.map String.toList, separator ∉ chars := by
      intro chars hmem
      obtain ⟨part, hpart, rfl⟩ := List.mem_map.1 hmem
      exact h part hpart
    rw [split, toList_intercalate_singleton, splitChars_intercalate (by simpa using hparts) hchars,
      List.map_map]
    simp

/-- Parts without a separator are those of the text that they are joined to. The empty text has one
part, even if it was joined from none. -/
theorem split_intercalate {separator : Char} {parts : List String}
    (h : ∀ part ∈ parts, separator ∉ part.toList) :
    split separator ((String.singleton separator).intercalate parts) =
      if parts = [] then [""] else parts := by
  split
  · rename_i hparts
    rw [hparts]
    rfl
  · rename_i hparts
    exact split_eq_iff.2 ⟨rfl, hparts, h⟩

end Reactor.Text

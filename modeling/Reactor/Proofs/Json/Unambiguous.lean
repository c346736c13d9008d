import Mathlib
import Reactor.Json.Printer
import Reactor.Json.Token

/-!
# Compact texts are unambiguous

The compact text of a document without floating-point numbers determines the document. Each part of
a document is told from all others by its own text, whatever follows that text: the reader of quoted
strings ends where a written string ends, and an integer ends where a comma or a closing bracket
follows.
-/

namespace Reactor.Json

/-! ## Strings -/

theorem quoted_letter {c letter : Char} (h : escape? letter = some c) (length : Nat)
    (read rest : List Char) :
    quoted 0 length (.ok read) ('\\' :: letter :: rest) =
      quoted 0 (length + 2) (.ok (c :: read)) rest := by
  have hletter : letter ≠ 'u' := by
    rintro rfl
    cases h
  rw [quoted]
  · simp [h, quoted, Quotation.push, Except.map]
  · exact fun _ _ _ _ _ hu _ ↦ hletter hu
  · exact hletter

theorem hexUnit?_control {c : Char} (h : c.toNat < 0x20) :
    hexUnit? '0' '0' (Nat.digitChar (c.toNat / 16)) (Nat.digitChar (c.toNat % 16)) =
      some c.toNat := by
  have hall : ∀ n < 0x20,
      hexUnit? '0' '0' (Nat.digitChar (n / 16)) (Nat.digitChar (n % 16)) = some n := by
    decide
  exact hall c.toNat h

/-- The reader of quoted strings takes an escaped character for what it stands for. -/
theorem quoted_escapeChar (c : Char) (length : Nat) (read rest : List Char) :
    quoted 0 length (.ok read) (escapeChar c ++ rest) =
      quoted 0 (length + (escapeChar c).length) (.ok (c :: read)) rest := by
  unfold escapeChar
  split_ifs with hquote hbackslash hbackspace hfeed hnewline hreturn htab hcontrol
  · exact quoted_letter (by rw [hquote]; rfl) length read rest
  · exact quoted_letter (by rw [hbackslash]; rfl) length read rest
  · exact quoted_letter (by rw [hbackspace]; rfl) length read rest
  · exact quoted_letter (by rw [hfeed]; rfl) length read rest
  · exact quoted_letter (by rw [hnewline]; rfl) length read rest
  · exact quoted_letter (by rw [hreturn]; rfl) length read rest
  · exact quoted_letter (by rw [htab]; rfl) length read rest
  · have hhigh : isHighSurrogate c.toNat = false := by
      simp only [isHighSurrogate, Bool.and_eq_false_iff, decide_eq_false_iff_not]
      omega
    have hlow : isLowSurrogate c.toNat = false := by
      simp only [isLowSurrogate, Bool.and_eq_false_iff, decide_eq_false_iff_not]
      omega
    simp [quoted, hexUnit?_control hcontrol, hhigh, hlow, Quotation.push, Except.map]
  · simp [quoted, hquote, hbackslash, hcontrol, Quotation.push, Except.map]

theorem quoted_flatMap_escapeChar (cs : List Char) (length : Nat) (read rest : List Char) :
    quoted 0 length (.ok read) (cs.flatMap escapeChar ++ '"' :: rest) =
      (.string (.ok (String.ofList (read.reverse ++ cs))),
        length + (cs.flatMap escapeChar).length + 1) := by
  induction cs generalizing length read with
  | nil => simp [quoted, Except.map]
  | cons c cs ih =>
    rw [List.flatMap_cons, List.append_assoc, quoted_escapeChar, ih]
    simp [Nat.add_assoc]

theorem toList_stringText (s : String) :
    (stringText s).toList = '"' :: (s.toList.flatMap escapeChar ++ ['"']) :=
  String.toList_ofList

/-- Two written strings are the same if they begin the same text. -/
theorem stringText_append_inj {s s' : String} {rest rest' : List Char}
    (h : (stringText s).toList ++ rest = (stringText s').toList ++ rest') :
    s = s' ∧ rest = rest' := by
  rw [toList_stringText, toList_stringText] at h
  have htail : s.toList.flatMap escapeChar ++ '"' :: rest =
      s'.toList.flatMap escapeChar ++ '"' :: rest' := by
    simpa using h
  have hread := congrArg (quoted 0 0 (.ok [])) htail
  rw [quoted_flatMap_escapeChar, quoted_flatMap_escapeChar] at hread
  have hs : s = s' := by
    simpa using congrArg Prod.fst hread
  subst hs
  exact ⟨rfl, by simpa using htail⟩

/-! ## Integers -/

/-- The characters that integers are written with. -/
def isNumeral (c : Char) : Bool :=
  c = '-' || c.isDigit

theorem isNumeral_of_mem_repr {n : Nat} {c : Char} (h : c ∈ n.repr.toList) : isNumeral c = true := by
  rw [Nat.repr_eq_ofList_toDigits, String.toList_ofList] at h
  simp [isNumeral, Nat.isDigit_of_mem_toDigits (by decide) (by decide) h]

theorem isNumeral_of_mem_toString {n : Int} {c : Char} (h : c ∈ (toString n).toList) :
    isNumeral c = true := by
  cases n with
  | ofNat n => exact isNumeral_of_mem_repr h
  | negSucc n =>
    have hc : c = '-' ∨ c ∈ (n + 1).repr.toList := by
      simpa [Int.toString_eq_repr, Int.repr] using h
    rcases hc with rfl | hc
    · rfl
    · exact isNumeral_of_mem_repr hc

/-- What may follow a part of a document: a comma, a closing bracket or the end of the text. -/
def Follows (rest : List Char) : Prop :=
  ∀ c ∈ rest.head?, c = ',' ∨ c = ']' ∨ c = '\x7d'

theorem Follows.takeWhile_isNumeral {rest : List Char} (h : Follows rest) :
    rest.takeWhile isNumeral = [] := by
  cases rest with
  | nil => rfl
  | cons c rest =>
    rcases h c rfl with rfl | rfl | rfl <;> rfl

/-- Two written integers are the same if they begin the same text. -/
theorem toString_append_inj {n n' : Int} {rest rest' : List Char} (hrest : Follows rest)
    (hrest' : Follows rest')
    (h : (toString n).toList ++ rest = (toString n').toList ++ rest') : n = n' ∧ rest = rest' := by
  have htaken := congrArg (List.takeWhile isNumeral) h
  rw [List.takeWhile_append_of_pos fun _ ↦ isNumeral_of_mem_toString,
    List.takeWhile_append_of_pos fun _ ↦ isNumeral_of_mem_toString, hrest.takeWhile_isNumeral,
    hrest'.takeWhile_isNumeral, List.append_nil, List.append_nil] at htaken
  have hn : n = n' := by
    apply Int.repr_injective
    exact String.toList_injective htaken
  subst hn
  exact ⟨rfl, List.append_cancel_left h⟩

/-! ## Arrays and objects -/

section Parts

variable {α : Type} {P : α → Prop} {text : α → List Char} {bracket : Char}

/-- The text of a part of a document tells it from all others of its kind, whatever follows. -/
def Tells (P : α → Prop) (text : α → List Char) (a : α) : Prop :=
  ∀ a' rest rest', P a' → Follows rest → Follows rest' →
    text a ++ rest = text a' ++ rest' → a = a' ∧ rest = rest'

/-- What follows the first of several parts: the other parts with a comma before each of them, and
a bracket. -/
def others (text : α → List Char) (bracket : Char) (items : List α) (rest : List Char) :
    List Char :=
  items.flatMap (fun a ↦ ',' :: text a) ++ bracket :: rest

theorem intercalate_append (text : α → List Char) (bracket : Char) (a : α) (items : List α)
    (rest : List Char) :
    [','].intercalate ((a :: items).map text) ++ bracket :: rest =
      text a ++ others text bracket items rest := by
  induction items generalizing a with
  | nil => simp [others]
  | cons b items ih =>
    have hrest := ih b
    rw [List.map_cons] at hrest
    rw [List.map_cons, List.map_cons, List.intercalate_cons_cons, List.append_assoc, hrest]
    simp [others]

section Bracket

variable (hbracket : bracket = ']' ∨ bracket = '\x7d')

include hbracket

theorem follows_others (items : List α) (rest : List Char) :
    Follows (others text bracket items rest) := by
  cases items with
  | nil => simpa [others, Follows] using .inr hbracket
  | cons a items => simp [others, Follows]

theorem eq_of_others {items items' : List α} (hitems' : ∀ a ∈ items', P a)
    (htells : ∀ a ∈ items, Tells P text a) {rest rest' : List Char}
    (h : others text bracket items rest = others text bracket items' rest') :
    items = items' ∧ rest = rest' := by
  have hcomma : bracket ≠ ',' := by
    rcases hbracket with rfl | rfl <;> decide
  induction items generalizing items' with
  | nil =>
    cases items' with
    | nil => simpa [others] using h
    | cons a' items' => simp [others, hcomma] at h
  | cons a items ih =>
    cases items' with
    | nil => simp [others, hcomma.symm] at h
    | cons a' items' =>
      obtain ⟨ha, hrest⟩ := List.forall_mem_cons.1 htells
      obtain ⟨ha', hrest'⟩ := List.forall_mem_cons.1 hitems'
      have hfirst : text a ++ others text bracket items rest =
          text a' ++ others text bracket items' rest' := by
        simpa [others] using h
      obtain ⟨rfl, hothers⟩ := ha a' _ _ ha' (follows_others hbracket items rest)
        (follows_others hbracket items' rest') hfirst
      obtain ⟨rfl, rfl⟩ := ih hrest' hrest hothers
      exact ⟨rfl, rfl⟩

/-- Parts with commas between them and a bracket after the last one are told from all others of
their kind, if none of them begins like the bracket. -/
theorem eq_of_intercalate
    (hbegins : ∀ a, P a → ∀ rest rest', text a ++ rest ≠ bracket :: rest') {items items' : List α}
    (hitems : ∀ a ∈ items, P a) (hitems' : ∀ a ∈ items', P a)
    (htells : ∀ a ∈ items, Tells P text a) {rest rest' : List Char}
    (h : [','].intercalate (items.map text) ++ bracket :: rest =
      [','].intercalate (items'.map text) ++ bracket :: rest') :
    items = items' ∧ rest = rest' := by
  cases items with
  | nil =>
    cases items' with
    | nil => simpa using h
    | cons a' items' =>
      rw [intercalate_append] at h
      exact absurd h.symm (hbegins a' (hitems' a' List.mem_cons_self) _ _)
  | cons a items =>
    cases items' with
    | nil =>
      rw [intercalate_append] at h
      exact absurd h (hbegins a (hitems a List.mem_cons_self) _ _)
    | cons a' items' =>
      obtain ⟨ha, hrest⟩ := List.forall_mem_cons.1 htells
      obtain ⟨ha', hrest'⟩ := List.forall_mem_cons.1 hitems'
      rw [intercalate_append, intercalate_append] at h
      obtain ⟨rfl, hothers⟩ := ha a' _ _ ha' (follows_others hbracket items rest)
        (follows_others hbracket items' rest') h
      obtain ⟨rfl, rfl⟩ := eq_of_others hbracket hrest' hrest hothers
      exact ⟨rfl, rfl⟩

end Bracket

end Parts

/-! ## Documents -/

/-- The documents without floating-point numbers. -/
inductive FloatFree : Json → Prop
  | null : FloatFree .null
  | bool (value : Bool) : FloatFree (.bool value)
  | integer (n : Int) : FloatFree (.number (.integer n))
  | string (s : String) : FloatFree (.string s)
  | array {items : List Json} (h : ∀ item ∈ items, FloatFree item) : FloatFree (.array items)
  | object {entries : List (String × Json)} (h : ∀ entry ∈ entries, FloatFree entry.2) :
    FloatFree (.object entries)

/-- Whether an integer fits 64 bits, with a sign or without one. -/
def Fits (n : Int) : Prop :=
  -0x8000000000000000 ≤ n ∧ n ≤ 0xFFFFFFFFFFFFFFFF

/-- The documents in which every number is an integer of 64 bits. -/
inductive IsExact : Json → Prop
  | null : IsExact .null
  | bool (value : Bool) : IsExact (.bool value)
  | integer {n : Int} (h : Fits n) : IsExact (.number (.integer n))
  | string (s : String) : IsExact (.string s)
  | array {items : List Json} (h : ∀ item ∈ items, IsExact item) : IsExact (.array items)
  | object {entries : List (String × Json)} (h : ∀ entry ∈ entries, IsExact entry.2) :
    IsExact (.object entries)

theorem IsExact.floatFree {document : Json} (h : document.IsExact) : document.FloatFree := by
  induction h with
  | null => exact .null
  | bool value => exact .bool value
  | integer => exact .integer _
  | string s => exact .string s
  | array _ ih => exact .array ih
  | object _ ih => exact .object ih

theorem compactItems_eq_map (items : List Json) : compactItems items = items.map compact := by
  induction items with
  | nil => rfl
  | cons item rest ih => rw [compactItems, ih, List.map_cons]

theorem compactEntries_eq_map (entries : List (String × Json)) :
    compactEntries entries = entries.map fun entry ↦ stringText entry.1 ++ ":" ++ compact entry.2 := by
  induction entries with
  | nil => rfl
  | cons entry rest ih => rw [compactEntries, ih, List.map_cons]

def compactChars (document : Json) : List Char :=
  document.compact.toList

def entryChars (entry : String × Json) : List Char :=
  (stringText entry.1).toList ++ ':' :: compactChars entry.2

theorem compactChars_array (items : List Json) :
    compactChars (.array items) = '[' :: ([','].intercalate (items.map compactChars) ++ [']']) := by
  simp [compactChars, compact, compactItems_eq_map, String.toList_intercalate, Function.comp_def]
  rfl

theorem compactChars_object (entries : List (String × Json)) :
    compactChars (.object entries) =
      '\x7b' :: ([','].intercalate (entries.map entryChars) ++ ['\x7d']) := by
  simp [compactChars, compact, compactEntries_eq_map, String.toList_intercalate, Function.comp_def]
  rfl

/-! ### First characters -/

/-- A character that stands for all those with which documents of the same kind begin. -/
def representative (c : Char) : Char :=
  if c = 'f' then 't' else if isNumeral c then '-' else c

/-- What the first character of a compact text is represented by. -/
def initial : Json → Char
  | null => 'n'
  | bool _ => 't'
  | number _ => '-'
  | string _ => '"'
  | array _ => '['
  | object _ => '\x7b'

theorem toList_toString_ne_nil (n : Int) : (toString n).toList ≠ [] := by
  cases n with
  | ofNat n =>
    change n.repr.toList ≠ []
    rw [Nat.repr_eq_ofList_toDigits, String.toList_ofList]
    exact Nat.toDigits_ne_nil
  | negSucc n => simp [Int.toString_eq_repr, Int.repr]

theorem exists_initial {document : Json} (h : FloatFree document) :
    ∃ c cs, compactChars document = c :: cs ∧ representative c = document.initial := by
  cases h with
  | null => exact ⟨_, _, rfl, rfl⟩
  | bool value => cases value <;> exact ⟨_, _, rfl, rfl⟩
  | integer n =>
    obtain ⟨c, cs, htext⟩ := List.exists_cons_of_ne_nil (toList_toString_ne_nil n)
    have hc : isNumeral c = true := isNumeral_of_mem_toString (htext ▸ List.mem_cons_self)
    have hf : c ≠ 'f' := by
      rintro rfl
      cases hc
    exact ⟨c, cs, htext, by rw [representative, if_neg hf, if_pos hc, initial]⟩
  | string s => exact ⟨_, _, toList_stringText s, rfl⟩
  | array h => exact ⟨_, _, compactChars_array _, rfl⟩
  | object h => exact ⟨_, _, compactChars_object _, rfl⟩

/-- Documents whose texts begin the same text are of the same kind. -/
theorem initial_eq {document document' : Json} (h : FloatFree document)
    (h' : FloatFree document') {rest rest' : List Char}
    (htext : compactChars document ++ rest = compactChars document' ++ rest') :
    document.initial = document'.initial := by
  obtain ⟨c, cs, hc, hinitial⟩ := exists_initial h
  obtain ⟨c', cs', hc', hinitial'⟩ := exists_initial h'
  rw [hc, hc'] at htext
  obtain ⟨rfl, -⟩ := List.cons.inj htext
  rw [← hinitial, hinitial']

theorem compactChars_append_ne {document : Json} (h : FloatFree document)
    (rest rest' : List Char) : compactChars document ++ rest ≠ ']' :: rest' := by
  intro htext
  obtain ⟨c, cs, hc, hinitial⟩ := exists_initial h
  rw [hc] at htext
  obtain ⟨rfl, -⟩ := List.cons.inj htext
  cases document <;> cases hinitial

theorem entryChars_append_ne (entry : String × Json) (rest rest' : List Char) :
    entryChars entry ++ rest ≠ '\x7d' :: rest' := by
  simp [entryChars, toList_stringText]

/-! ### All characters -/

theorem tells_entry {entry : String × Json} (h : Tells FloatFree compactChars entry.2) :
    Tells (fun entry ↦ FloatFree entry.2) entryChars entry := by
  intro entry' rest rest' hentry' hrest hrest' htext
  simp only [entryChars, List.append_assoc, List.cons_append] at htext
  obtain ⟨hkey, htail⟩ := stringText_append_inj htext
  obtain ⟨hvalue, rfl⟩ := h entry'.2 rest rest' hentry' hrest hrest' (List.cons.inj htail).2
  exact ⟨Prod.ext hkey hvalue, rfl⟩

/-- A document without floating-point numbers is told from all others by its compact text, whatever
follows. -/
theorem FloatFree.tells {document : Json} (h : FloatFree document) :
    Tells FloatFree compactChars document := by
  induction h with
  | null =>
    intro document' rest rest' h' hrest hrest' htext
    have hinitial := initial_eq .null h' htext
    cases h' with
    | null => exact ⟨rfl, List.append_cancel_left htext⟩
    | _ => cases hinitial
  | bool value =>
    intro document' rest rest' h' hrest hrest' htext
    have hinitial := initial_eq (.bool value) h' htext
    cases h' with
    | bool value' =>
      cases value <;> cases value' <;> simp_all [compactChars, compact]
    | _ => cases hinitial
  | integer n =>
    intro document' rest rest' h' hrest hrest' htext
    have hinitial := initial_eq (.integer n) h' htext
    cases h' with
    | integer n' =>
      obtain ⟨rfl, rfl⟩ := toString_append_inj hrest hrest' htext
      exact ⟨rfl, rfl⟩
    | _ => cases hinitial
  | string s =>
    intro document' rest rest' h' hrest hrest' htext
    have hinitial := initial_eq (.string s) h' htext
    cases h' with
    | string s' =>
      obtain ⟨rfl, rfl⟩ := stringText_append_inj htext
      exact ⟨rfl, rfl⟩
    | _ => cases hinitial
  | array hitems ih =>
    intro document' rest rest' h' hrest hrest' htext
    have hinitial := initial_eq (.array hitems) h' htext
    cases h' with
    | array hitems' =>
      simp only [compactChars_array, List.cons_append, List.append_assoc, List.nil_append,
        List.cons.injEq, true_and] at htext
      obtain ⟨rfl, rfl⟩ := eq_of_intercalate (.inl rfl) (fun _ h ↦ compactChars_append_ne h) hitems
        hitems' ih htext
      exact ⟨rfl, rfl⟩
    | _ => cases hinitial
  | object hentries ih =>
    intro document' rest rest' h' hrest hrest' htext
    have hinitial := initial_eq (.object hentries) h' htext
    cases h' with
    | object hentries' =>
      simp only [compactChars_object, List.cons_append, List.append_assoc, List.nil_append,
        List.cons.injEq, true_and] at htext
      have htells := fun entry hentry ↦ tells_entry (ih entry hentry)
      obtain ⟨rfl, rfl⟩ := eq_of_intercalate (.inr rfl) (fun entry _ ↦ entryChars_append_ne entry)
        hentries hentries' htells htext
      exact ⟨rfl, rfl⟩
    | _ => cases hinitial

/-- Documents without floating-point numbers that have the same compact text are the same. -/
theorem FloatFree.eq_of_compact_eq {document document' : Json} (h : FloatFree document)
    (h' : FloatFree document') (htext : document.compact = document'.compact) :
    document = document' := by
  have hends : Follows [] := by
    simp [Follows]
  have hchars : compactChars document ++ [] = compactChars document' ++ [] := by
    rw [compactChars, compactChars, htext]
  exact (h.tells document' [] [] h' hends hends hchars).1

end Reactor.Json

import Reactor.Proofs.Json.ReadBack

/-!
# Numbers as they are written

A number that is written without fraction and exponent is read as the integer that its digits say,
if this integer fits 64 bits with a sign or without one. Every other number is read as a double: one
with a fraction or an exponent, an integer that does not fit, and a zero with a sign.
-/

namespace Reactor.Json

/-! ## Digits -/

theorem decimal_append_singleton (digits : List Char) (c : Char) :
    decimal (digits ++ [c]) = 10 * decimal digits + digitValue c := by
  rw [decimal, List.foldl_append]
  rfl

theorem digitValue_lt {c : Char} (h : c.isDigit = true) : digitValue c < 10 := by
  have hrange := Char.isDigit_iff_toNat.1 h
  simp only [Char.reduceToNat] at hrange
  unfold digitValue
  simp only [Char.reduceToNat]
  omega

theorem toDigits_digitValue {c : Char} (h : c.isDigit = true) :
    Nat.toDigits 10 (digitValue c) = [c] := by
  have hrange := Char.isDigit_iff_toNat.1 h
  have hchar : (digitValue c).digitChar = c := by
    apply Char.toNat_inj.1
    rw [Nat.toNat_digitChar_of_lt_ten (digitValue_lt h), digitValue]
    simp only [Char.reduceToNat] at hrange ⊢
    omega
  rw [Nat.toDigits_of_lt_base (digitValue_lt h), hchar]

/-- Digits without a leading zero are those of the number that they write. -/
theorem toDigits_decimal_cons {first : Char} {others : List Char} (hfirst : first.isDigit = true)
    (hne : first ≠ '0') (hothers : ∀ c ∈ others, c.isDigit = true) :
    0 < decimal (first :: others) ∧
      Nat.toDigits 10 (decimal (first :: others)) = first :: others := by
  -- One digit is added at the end of a positive number, where the digits of both are known.
  induction others using List.reverseRecOn with
  | nil =>
    have hdecimal : decimal [first] = digitValue first := by simp [decimal]
    rw [hdecimal]
    refine ⟨Nat.pos_of_ne_zero fun hzero ↦ hne ?_, toDigits_digitValue hfirst⟩
    have hdigits := toDigits_digitValue hfirst
    rw [hzero] at hdigits
    exact (List.cons.inj hdigits).1.symm
  | append_singleton others c ih =>
    rw [List.forall_mem_append, List.forall_mem_singleton] at hothers
    obtain ⟨hpos, hdigits⟩ := ih hothers.1
    rw [← List.cons_append, decimal_append_singleton]
    refine ⟨by omega, ?_⟩
    rw [← Nat.toDigits_append_toDigits (by decide) hpos (digitValue_lt hothers.2), hdigits,
      toDigits_digitValue hothers.2]

theorem toDigits_decimal {digits : List Char} (hne : digits ≠ [])
    (hdigits : ∀ c ∈ digits, c.isDigit = true)
    (hzero : digits.head? = some '0' → digits.length = 1) :
    Nat.toDigits 10 (decimal digits) = digits := by
  cases digits with
  | nil => exact absurd rfl hne
  | cons first others =>
    obtain ⟨hfirst, hothers⟩ := List.forall_mem_cons.1 hdigits
    by_cases hleading : first = '0'
    · subst hleading
      have hnil : others = [] := by simpa using hzero rfl
      rw [hnil]
      rfl
    · exact (toDigits_decimal_cons hfirst hleading hothers).2

/-! ## Literals -/

namespace Literal

variable {text : List Char} {reading : LiteralReading}

/-- What the reader of exponents makes of a literal. -/
theorem of_readExponent {negative : Bool} {whole length : Nat} {fraction : Option (List Nat)}
    (h : readExponent negative whole fraction length text = .ok reading) :
    (reading.literal = ⟨negative, whole, fraction, none⟩ ∧ reading.length = length) ∨
      (reading.literal.exponent.isSome = true ∧ length < reading.length ∧
        ∃ mark rest, text = mark :: rest ∧ (mark = 'e' ∨ mark = 'E')) := by
  unfold readExponent at h
  split at h
  · cases h
    exact .inl ⟨rfl, rfl⟩
  split at h
  case isTrue mark rest hmark =>
    have hexponent : reading.literal.exponent.isSome = true ∧ length < reading.length := by
      split at h
      dsimp only at h
      split at h
      · cases h
      split at h
      · cases h
      · obtain rfl := Except.ok.inj h
        exact ⟨rfl, by dsimp only; omega⟩
    exact .inr ⟨hexponent.1, hexponent.2, mark, rest, rfl, hmark⟩
  case isFalse =>
    cases h
    exact .inl ⟨rfl, rfl⟩

/-- A literal that is read has a sign, digits, and possibly a point after them. -/
theorem exists_parts_of_read (h : read text = .ok reading) : ∃ negative whole rest,
    text = sign negative ++ whole ++ rest ∧ Nat.toDigits 10 (decimal whole) = whole ∧
      (readExponent negative (decimal whole) none (sign negative ++ whole).length rest =
          .ok reading ∨
        ∃ others digits length tail, rest = '.' :: others ∧
          (sign negative ++ whole).length < length ∧
            readExponent negative (decimal whole) (some digits) length tail = .ok reading) := by
  unfold read at h
  split at h
  rename_i parts negative signLength unsigned hparts
  have hsign : text = sign negative ++ unsigned ∧ (sign negative).length = signLength := by
    split at hparts <;> cases hparts <;> exact ⟨rfl, rfl⟩
  obtain ⟨rfl, rfl⟩ := hsign
  dsimp only at h
  split at h
  · cases h
  rename_i first others
  split at h
  · cases h
  rename_i hne
  split at h
  · cases h
  rename_i hzero
  have hdigits : Nat.toDigits 10 (decimal ((first :: others).takeWhile Char.isDigit)) =
      (first :: others).takeWhile Char.isDigit := by
    apply toDigits_decimal
    · simpa only [List.isEmpty_iff] using hne
    · exact fun c hc ↦ List.mem_takeWhile_imp hc
    · intro hhead
      rw [List.head?_takeWhile, List.head?_cons] at hhead
      by_contra hlength
      exact hzero ⟨Option.some.inj (Option.filter_eq_some_iff.1 hhead).1, hlength⟩
  refine ⟨negative, _, (first :: others).dropWhile Char.isDigit, ?_, hdigits, ?_⟩
  · rw [List.append_assoc, List.takeWhile_append_dropWhile]
  · rw [List.length_append]
    split at h
    case h_1 rest hrest =>
      split at h
      · cases h
      split at h
      · cases h
      · exact .inr ⟨rest, _, _, _, hrest, by omega, h⟩
    case h_2 => exact .inl h

theorem mem_take_append_cons {c : Char} {before rest : List Char} {length : Nat}
    (h : before.length < length) : c ∈ (before ++ c :: rest).take length := by
  obtain ⟨more, rfl⟩ := Nat.exists_eq_add_of_lt h
  have htake : (before ++ c :: rest).take (before.length + more + 1) =
      before ++ c :: rest.take more := by
    simp [Nat.add_assoc, List.take_length_add_append]
  rw [htake]
  exact List.mem_append_right _ List.mem_cons_self

/-- A literal that is read is either an integer, written by a sign and its digits, or it is written
with a point or an exponent. -/
theorem take_of_read (h : read text = .ok reading) :
    (∃ negative whole, reading.literal = ⟨negative, whole, none, none⟩ ∧
      text.take reading.length = sign negative ++ Nat.toDigits 10 whole) ∨
    ((reading.literal.fraction.isSome = true ∨ reading.literal.exponent.isSome = true) ∧
      ∃ c ∈ text.take reading.length, c = '.' ∨ c = 'e' ∨ c = 'E') := by
  obtain ⟨negative, whole, rest, rfl, hdigits, hinteger | hfraction⟩ := exists_parts_of_read h
  · rcases of_readExponent hinteger with ⟨hliteral, hlength⟩ | ⟨hexponent, hlength, hmark⟩
    · refine .inl ⟨negative, decimal whole, hliteral, ?_⟩
      rw [hlength, List.take_left, hdigits]
    · obtain ⟨mark, tail, rfl, hmark⟩ := hmark
      exact .inr ⟨.inr hexponent, mark, mem_take_append_cons hlength, .inr hmark⟩
  · obtain ⟨others, digits, length, tail, rfl, hlonger, hread⟩ := hfraction
    right
    rcases of_readExponent hread with ⟨hliteral, hlength⟩ | ⟨hexponent, hlength, -⟩
    · rw [hliteral, hlength]
      exact ⟨.inl rfl, '.', mem_take_append_cons hlonger, .inl rfl⟩
    · exact ⟨.inr hexponent, '.', mem_take_append_cons (hlonger.trans hlength), .inl rfl⟩

end Literal

/-! ## Numerals -/

/-- The number that is read for a numeral, the text of a number. -/
inductive NumberOf (numeral : String) : Number → Prop
  | integer {n : Int} (h : Fits n) (hnumeral : numeral = toString n) : NumberOf numeral (.integer n)
  /-- An integer that does not fit is not kept. -/
  | large {n : Int} (h : ¬Fits n) (hnumeral : numeral = toString n) (x : Float) :
    NumberOf numeral (.float x)
  | negativeZero (hnumeral : numeral = "-0") (x : Float) : NumberOf numeral (.float x)
  | fractional (h : ∃ c ∈ numeral.toList, c = '.' ∨ c = 'e' ∨ c = 'E') (x : Float) :
    NumberOf numeral (.float x)

def numeralAt (text : List Char) : String :=
  match Literal.read text with
  | .ok reading => String.ofList (text.take reading.length)
  | .error _ => ""

theorem Literal.exists_float {l : Literal} {n : Number} (h : l.float?.map Number.float = some n) :
    ∃ x, n = .float x := by
  obtain ⟨x, -, hn⟩ := Option.map_eq_some_iff.1 h
  exact ⟨x, hn.symm⟩

def signed (negative : Bool) (whole : Nat) : Int :=
  if negative then -whole else whole

section Signed

variable {negative : Bool} {whole : Nat}

theorem ofList_sign_append (hzero : ¬(negative = true ∧ whole = 0)) :
    String.ofList (sign negative ++ Nat.toDigits 10 whole) = toString (signed negative whole) := by
  have hnegative : decide (signed negative whole < 0) = negative := by
    cases negative <;> simp_all [signed, Nat.pos_iff_ne_zero]
  have hwhole : (signed negative whole).natAbs = whole := by
    cases negative <;> simp [signed]
  rw [← String.ofList_toList (s := toString _), toList_toString, hnegative, hwhole]

theorem Literal.number?_of_fits (hzero : ¬(negative = true ∧ whole = 0))
    (hfits : Fits (signed negative whole)) :
    number? ⟨negative, whole, none, none⟩ = some (.integer (signed negative whole)) := by
  unfold Fits signed at hfits
  cases negative with
  | true =>
    have hrange : 1 ≤ whole ∧ whole ≤ 0x8000000000000000 := by
      simp only [true_and, if_true] at hzero hfits
      omega
    simp [number?, signed, hrange]
  | false =>
    have hrange : whole ≤ maxUnsigned := by
      simp only [Bool.false_eq_true, if_false] at hfits
      unfold maxUnsigned
      omega
    simp [number?, signed, hrange]

theorem Literal.number?_of_not_fits
    (h : negative = true ∧ whole = 0 ∨ ¬Fits (signed negative whole)) :
    number? ⟨negative, whole, none, none⟩ =
      (float? ⟨negative, whole, none, none⟩).map .float := by
  unfold Fits signed at h
  cases negative with
  | true =>
    have hrange : ¬(1 ≤ whole ∧ whole ≤ 0x8000000000000000) := by
      simp only [true_and, if_true] at h
      omega
    simp [number?, hrange]
  | false =>
    have hrange : ¬whole ≤ maxUnsigned := by
      simp only [Bool.false_eq_true, false_and, false_or, if_false] at h
      unfold maxUnsigned
      omega
    simp [number?, hrange]

/-- What is read for a sign and digits. -/
theorem numberOf_sign_append {n : Number}
    (h : Literal.number? ⟨negative, whole, none, none⟩ = some n) :
    NumberOf (String.ofList (sign negative ++ Nat.toDigits 10 whole)) n := by
  by_cases hzero : negative = true ∧ whole = 0
  · rw [Literal.number?_of_not_fits (.inl hzero)] at h
    obtain ⟨rfl, rfl⟩ := hzero
    obtain ⟨x, rfl⟩ := Literal.exists_float h
    exact .negativeZero rfl x
  by_cases hfits : Fits (signed negative whole)
  · rw [Literal.number?_of_fits hzero hfits] at h
    obtain rfl := Option.some.inj h
    exact .integer hfits (ofList_sign_append hzero)
  · rw [Literal.number?_of_not_fits (.inr hfits)] at h
    obtain ⟨x, rfl⟩ := Literal.exists_float h
    exact .large hfits (ofList_sign_append hzero) x

end Signed

/-- What is read for the numeral at the front of a text. -/
theorem numberOf_numeralAt {text : List Char} {reading : LiteralReading} {n : Number}
    (hread : Literal.read text = .ok reading) (hnumber : reading.number = .ok n) :
    NumberOf (numeralAt text) n := by
  have hliteral : reading.literal.number? = some n := by
    unfold LiteralReading.number at hnumber
    split at hnumber
    case h_1 hsome => rw [hsome, Except.ok.inj hnumber]
    case h_2 => cases hnumber
  have hnumeral : numeralAt text = String.ofList (text.take reading.length) := by
    rw [numeralAt, hread]
  rw [hnumeral]
  rcases Literal.take_of_read hread with ⟨negative, whole, hinteger, htake⟩ | ⟨hparts, hmark⟩
  · rw [hinteger] at hliteral
    rw [htake]
    exact numberOf_sign_append hliteral
  · have hfloat : reading.literal.number? = reading.literal.float?.map .float := by
      rw [Literal.number?, if_neg]
      simp only [Option.isNone_iff_eq_none, not_and_or, ← Option.isSome_iff_ne_none]
      exact hparts
    obtain ⟨x, rfl⟩ := Literal.exists_float (hfloat.symm.trans hliteral)
    apply NumberOf.fractional
    rw [String.toList_ofList]
    exact hmark

theorem toString_ne_negativeZero (n : Int) : toString n ≠ "-0" := by
  intro h
  have hchars : sign (n < 0) ++ Nat.toDigits 10 n.natAbs = ['-', '0'] := by
    rw [← toList_toString, h]
    rfl
  by_cases hnegative : n < 0
  · have hdigits : Nat.toDigits 10 n.natAbs = ['0'] := by
      simpa [sign, hnegative] using hchars
    have hzero : n.natAbs = 0 := by
      rw [← decimal_toDigits n.natAbs, hdigits]
      rfl
    omega
  · have hdigits : Nat.toDigits 10 n.natAbs = ['-', '0'] := by
      simpa [sign, hnegative] using hchars
    have hmem : '-' ∈ Nat.toDigits 10 n.natAbs := hdigits ▸ List.mem_cons_self
    exact absurd (Nat.isDigit_of_mem_toDigits (by decide) (by decide) hmem) (by decide)

theorem isNumeral_ne {c : Char} (h : isNumeral c = true) : ¬(c = '.' ∨ c = 'e' ∨ c = 'E') := by
  rintro (rfl | rfl | rfl) <;> cases h

namespace NumberOf

variable {numeral : String} {n : Int} {number : Number}

theorem integer_iff : NumberOf numeral (.integer n) ↔ Fits n ∧ numeral = toString n := by
  constructor
  · intro h
    cases h with
    | integer hfits hnumeral => exact ⟨hfits, hnumeral⟩
  · rintro ⟨hfits, hnumeral⟩
    exact .integer hfits hnumeral

/-- An integer is kept if it fits, and otherwise becomes a double. -/
theorem of_toString (h : NumberOf (toString n) number) :
    Fits n ∧ number = .integer n ∨ ¬Fits n ∧ ∃ x, number = .float x := by
  cases h with
  | integer hfits hnumeral =>
    obtain rfl := Int.repr_injective hnumeral
    exact .inl ⟨hfits, rfl⟩
  | large hfits hnumeral x =>
    obtain rfl := Int.repr_injective hnumeral
    exact .inr ⟨hfits, x, rfl⟩
  | negativeZero hnumeral x => exact absurd hnumeral (toString_ne_negativeZero n)
  | fractional hmark x =>
    obtain ⟨c, hc, hmark⟩ := hmark
    exact absurd hmark (isNumeral_ne (isNumeral_of_mem_toString hc))

/-- A zero with a sign is a double. -/
theorem of_negativeZero (h : NumberOf "-0" number) : ∃ x, number = .float x := by
  cases h with
  | integer hfits hnumeral => exact absurd hnumeral.symm (toString_ne_negativeZero _)
  | large _ _ x => exact ⟨x, rfl⟩
  | negativeZero _ x => exact ⟨x, rfl⟩
  | fractional _ x => exact ⟨x, rfl⟩

/-- A numeral without point and exponent is that of an integer or a zero with a sign. -/
theorem eq_toString_or (h : NumberOf numeral number)
    (hplain : ∀ c ∈ numeral.toList, c ≠ '.' ∧ c ≠ 'e' ∧ c ≠ 'E') :
    (∃ n : Int, numeral = toString n) ∨ numeral = "-0" := by
  cases h with
  | integer _ hnumeral => exact .inl ⟨_, hnumeral⟩
  | large _ hnumeral _ => exact .inl ⟨_, hnumeral⟩
  | negativeZero hnumeral _ => exact .inr hnumeral
  | fractional hmark _ =>
    obtain ⟨c, hc, hmark⟩ := hmark
    obtain ⟨hpoint, hlower, hupper⟩ := hplain c hc
    rcases hmark with rfl | rfl | rfl
    · exact absurd rfl hpoint
    · exact absurd rfl hlower
    · exact absurd rfl hupper

end NumberOf

end Reactor.Json

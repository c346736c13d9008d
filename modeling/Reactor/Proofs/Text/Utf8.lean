import Reactor.Proofs.Outcome
import Reactor.Text.Utf8

/-!
# UTF-8 of a text

Decoding accepts exactly the bytes that a text is encoded as. So a text has only one form in UTF-8,
and different byte sequences never denote the same text.
-/

namespace Reactor.Text.Utf8

def bytesOf (s : String) : List UInt8 :=
  s.toList.flatMap String.utf8EncodeChar

theorem toNat_val_ofNat {n : Nat} (h : n.isValidChar) : (Char.ofNat n).val.toNat = n := by
  rw [Char.ofNat, dif_pos h]
  rfl

theorem ofNat_eq {n : Nat} {b : UInt8} (h : n = b.toNat) : UInt8.ofNat n = b := by
  rw [h, UInt8.ofNat_toNat]

/-! ## What is decoded -/

section Decoded

variable {a b c d : UInt8}

theorem isContinuation_iff : isContinuation b = true ↔ 0x80 ≤ b.toNat ∧ b.toNat ≤ 0xBF := by
  simp [isContinuation, UInt8.le_iff_toNat_le]

theorem isSecondOfThree_iff : isSecondOfThree a b = true ↔
    (if a.toNat = 0xE0 then 0xA0 else 0x80) ≤ b.toNat ∧
      b.toNat ≤ (if a.toNat = 0xED then 0x9F else 0xBF) := by
  have hlow : a = 0xE0 ↔ a.toNat = 0xE0 := by rw [← UInt8.toNat_inj]; rfl
  have hhigh : a = 0xED ↔ a.toNat = 0xED := by rw [← UInt8.toNat_inj]; rfl
  simp only [isSecondOfThree, hlow, hhigh, Bool.and_eq_true, decide_eq_true_eq,
    UInt8.le_iff_toNat_le]
  split <;> split <;> simp

theorem isSecondOfFour_iff : isSecondOfFour a b = true ↔
    (if a.toNat = 0xF0 then 0x90 else 0x80) ≤ b.toNat ∧
      b.toNat ≤ (if a.toNat = 0xF4 then 0x8F else 0xBF) := by
  have hlow : a = 0xF0 ↔ a.toNat = 0xF0 := by rw [← UInt8.toNat_inj]; rfl
  have hhigh : a = 0xF4 ↔ a.toNat = 0xF4 := by rw [← UInt8.toNat_inj]; rfl
  simp only [isSecondOfFour, hlow, hhigh, Bool.and_eq_true, decide_eq_true_eq,
    UInt8.le_iff_toNat_le]
  split <;> split <;> simp

theorem encodeChar_one (ha : a.toNat < 0x80) :
    String.utf8EncodeChar (Char.ofNat a.toNat) = [a] := by
  have hvalid : a.toNat.isValidChar := by
    unfold Nat.isValidChar
    omega
  rw [String.utf8EncodeChar, toNat_val_ofNat hvalid]
  simp only [if_pos (show a.toNat ≤ 127 by omega), UInt8.ofNat_toNat]

theorem encodeChar_two (ha : 0xC2 ≤ a.toNat ∧ a.toNat ≤ 0xDF)
    (hb : 0x80 ≤ b.toNat ∧ b.toNat ≤ 0xBF) :
    String.utf8EncodeChar (Char.ofNat (a.toNat % 32 * 64 + payload b)) = [a, b] := by
  unfold payload
  generalize hn : a.toNat % 32 * 64 + b.toNat % 64 = n
  have hvalid : n.isValidChar := by
    unfold Nat.isValidChar
    omega
  have ha' : UInt8.ofNat (n / 64 % 32 + 192) = a := ofNat_eq (by omega)
  have hb' : UInt8.ofNat (n % 64 + 128) = b := ofNat_eq (by omega)
  rw [String.utf8EncodeChar, toNat_val_ofNat hvalid]
  simp only [if_neg (show ¬n ≤ 127 by omega), if_pos (show n ≤ 2047 by omega), ha', hb']

theorem encodeChar_three (ha : 0xE0 ≤ a.toNat ∧ a.toNat ≤ 0xEF)
    (hb : (if a.toNat = 0xE0 then 0xA0 else 0x80) ≤ b.toNat ∧
      b.toNat ≤ (if a.toNat = 0xED then 0x9F else 0xBF))
    (hc : 0x80 ≤ c.toNat ∧ c.toNat ≤ 0xBF) :
    String.utf8EncodeChar
      (Char.ofNat ((a.toNat % 16 * 64 + payload b) * 64 + payload c)) = [a, b, c] := by
  unfold payload
  generalize hn : (a.toNat % 16 * 64 + b.toNat % 64) * 64 + c.toNat % 64 = n
  -- The bounds of the second byte leave out the surrogates and what has a shorter form.
  have hrange : 2048 ≤ n ∧ n ≤ 65535 ∧ (n < 55296 ∨ 57343 < n) := by
    split at hb <;> split at hb <;> omega
  have hvalid : n.isValidChar := by
    unfold Nat.isValidChar
    omega
  have ha' : UInt8.ofNat (n / 4096 % 16 + 224) = a := ofNat_eq (by split at hb <;> omega)
  have hb' : UInt8.ofNat (n / 64 % 64 + 128) = b :=
    ofNat_eq (by split at hb <;> split at hb <;> omega)
  have hc' : UInt8.ofNat (n % 64 + 128) = c := ofNat_eq (by omega)
  rw [String.utf8EncodeChar, toNat_val_ofNat hvalid]
  simp only [if_neg (show ¬n ≤ 127 by omega), if_neg (show ¬n ≤ 2047 by omega),
    if_pos hrange.2.1, ha', hb', hc']

theorem encodeChar_four (ha : 0xF0 ≤ a.toNat ∧ a.toNat ≤ 0xF4)
    (hb : (if a.toNat = 0xF0 then 0x90 else 0x80) ≤ b.toNat ∧
      b.toNat ≤ (if a.toNat = 0xF4 then 0x8F else 0xBF))
    (hc : 0x80 ≤ c.toNat ∧ c.toNat ≤ 0xBF) (hd : 0x80 ≤ d.toNat ∧ d.toNat ≤ 0xBF) :
    String.utf8EncodeChar
      (Char.ofNat (((a.toNat % 8 * 64 + payload b) * 64 + payload c) * 64 + payload d)) =
        [a, b, c, d] := by
  unfold payload
  generalize hn :
    ((a.toNat % 8 * 64 + b.toNat % 64) * 64 + c.toNat % 64) * 64 + d.toNat % 64 = n
  have hrange : 65536 ≤ n ∧ n < 1114112 := by
    split at hb <;> split at hb <;> omega
  have hvalid : n.isValidChar := by
    unfold Nat.isValidChar
    omega
  have ha' : UInt8.ofNat (n / 262144 % 8 + 240) = a := ofNat_eq (by split at hb <;> omega)
  have hb' : UInt8.ofNat (n / 4096 % 64 + 128) = b :=
    ofNat_eq (by split at hb <;> split at hb <;> omega)
  have hc' : UInt8.ofNat (n / 64 % 64 + 128) = c := ofNat_eq (by omega)
  have hd' : UInt8.ofNat (n % 64 + 128) = d := ofNat_eq (by omega)
  rw [String.utf8EncodeChar, toNat_val_ofNat hvalid]
  simp only [if_neg (show ¬n ≤ 127 by omega), if_neg (show ¬n ≤ 2047 by omega),
    if_neg (show ¬n ≤ 65535 by omega), ha', hb', hc', hd']

end Decoded

/-- Bytes that are decoded are those of the characters that they are decoded as. -/
theorem eq_flatMap_of_decodeFrom {index : Nat} {bytes : List UInt8} {cs : List Char}
    (h : decodeFrom index bytes = .ok cs) : bytes = cs.flatMap String.utf8EncodeChar := by
  fun_induction decodeFrom index bytes generalizing cs with
  | case1 =>
    obtain rfl := Except.ok.inj h
    rfl
  | case2 index a rest ha ih =>
    obtain ⟨cs, hrest, rfl⟩ := map_eq_ok.1 h
    rw [List.flatMap_cons, encodeChar_one (UInt8.lt_iff_toNat_lt.1 ha), ← ih hrest]
    rfl
  | case4 index a _ ha b rest hb ih =>
    obtain ⟨cs, hrest, rfl⟩ := map_eq_ok.1 h
    simp only [Bool.and_eq_true, decide_eq_true_eq, UInt8.le_iff_toNat_le] at ha
    rw [List.flatMap_cons, encodeChar_two ha (isContinuation_iff.1 hb), ← ih hrest]
    rfl
  | case8 index a _ _ ha b hb c rest hc ih =>
    obtain ⟨cs, hrest, rfl⟩ := map_eq_ok.1 h
    simp only [Bool.and_eq_true, decide_eq_true_eq, UInt8.le_iff_toNat_le] at ha
    rw [List.flatMap_cons, encodeChar_three ha (isSecondOfThree_iff.1 hb)
      (isContinuation_iff.1 hc), ← ih hrest]
    rfl
  | case14 index a _ _ _ ha b hb c hc d rest hd ih =>
    obtain ⟨cs, hrest, rfl⟩ := map_eq_ok.1 h
    simp only [Bool.and_eq_true, decide_eq_true_eq, UInt8.le_iff_toNat_le] at ha
    rw [List.flatMap_cons, encodeChar_four ha (isSecondOfFour_iff.1 hb)
      (isContinuation_iff.1 hc) (isContinuation_iff.1 hd), ← ih hrest]
    rfl
  | _ => cases h

/-! ## What is encoded -/

section Encoded

variable {a b c d : UInt8}

theorem decodeFrom_one (ha : a.toNat < 0x80) (index : Nat) (rest : List UInt8) :
    decodeFrom index (a :: rest) = (Char.ofNat a.toNat :: ·) <$> decodeFrom (index + 1) rest := by
  have hlow : a < 0x80 := UInt8.lt_iff_toNat_lt.2 ha
  rw [decodeFrom.eq_def]
  simp only [if_pos hlow]

theorem decodeFrom_two (ha : 0xC2 ≤ a.toNat ∧ a.toNat ≤ 0xDF) (hb : isContinuation b = true)
    (index : Nat) (rest : List UInt8) :
    decodeFrom index (a :: b :: rest) =
      (Char.ofNat (a.toNat % 32 * 64 + payload b) :: ·) <$> decodeFrom (index + 2) rest := by
  have hlow : ¬a < 0x80 := by
    simp only [UInt8.lt_iff_toNat_lt, UInt8.reduceToNat]
    omega
  have hlead : (0xC2 ≤ a && a ≤ 0xDF) = true := by
    simpa [UInt8.le_iff_toNat_le] using ha
  rw [decodeFrom.eq_def]
  simp only [if_neg hlow, if_pos hlead, if_pos hb]

theorem decodeFrom_three (ha : 0xE0 ≤ a.toNat ∧ a.toNat ≤ 0xEF)
    (hb : isSecondOfThree a b = true) (hc : isContinuation c = true)
    (index : Nat) (rest : List UInt8) :
    decodeFrom index (a :: b :: c :: rest) =
      (Char.ofNat ((a.toNat % 16 * 64 + payload b) * 64 + payload c) :: ·) <$>
        decodeFrom (index + 3) rest := by
  have hlow : ¬a < 0x80 := by
    simp only [UInt8.lt_iff_toNat_lt, UInt8.reduceToNat]
    omega
  have htwo : ¬(0xC2 ≤ a && a ≤ 0xDF) = true := by
    simp only [Bool.and_eq_true, decide_eq_true_eq, UInt8.le_iff_toNat_le, UInt8.reduceToNat]
    omega
  have hlead : (0xE0 ≤ a && a ≤ 0xEF) = true := by
    simpa [UInt8.le_iff_toNat_le] using ha
  rw [decodeFrom.eq_def]
  simp only [if_neg hlow, if_neg htwo, if_pos hlead, if_pos hb, if_pos hc]

theorem decodeFrom_four (ha : 0xF0 ≤ a.toNat ∧ a.toNat ≤ 0xF4)
    (hb : isSecondOfFour a b = true) (hc : isContinuation c = true) (hd : isContinuation d = true)
    (index : Nat) (rest : List UInt8) :
    decodeFrom index (a :: b :: c :: d :: rest) =
      (Char.ofNat (((a.toNat % 8 * 64 + payload b) * 64 + payload c) * 64 + payload d) :: ·) <$>
        decodeFrom (index + 4) rest := by
  have hlow : ¬a < 0x80 := by
    simp only [UInt8.lt_iff_toNat_lt, UInt8.reduceToNat]
    omega
  have htwo : ¬(0xC2 ≤ a && a ≤ 0xDF) = true := by
    simp only [Bool.and_eq_true, decide_eq_true_eq, UInt8.le_iff_toNat_le, UInt8.reduceToNat]
    omega
  have hthree : ¬(0xE0 ≤ a && a ≤ 0xEF) = true := by
    simp only [Bool.and_eq_true, decide_eq_true_eq, UInt8.le_iff_toNat_le, UInt8.reduceToNat]
    omega
  have hlead : (0xF0 ≤ a && a ≤ 0xF4) = true := by
    simpa [UInt8.le_iff_toNat_le] using ha
  rw [decodeFrom.eq_def]
  simp only [if_neg hlow, if_neg htwo, if_neg hthree, if_pos hlead, if_pos hb, if_pos hc, if_pos hd]

end Encoded

theorem exists_byte {n : Nat} (h : n < 256) : ∃ b : UInt8, UInt8.ofNat n = b ∧ b.toNat = n :=
  ⟨UInt8.ofNat n, rfl, by rw [UInt8.toNat_ofNat', Nat.mod_eq_of_lt h]⟩

/-- The bytes of a character are decoded as this character, whatever follows them. -/
theorem decodeFrom_encodeChar (index : Nat) (char : Char) (rest : List UInt8) :
    ∃ next, decodeFrom index (String.utf8EncodeChar char ++ rest) =
      (char :: ·) <$> decodeFrom next rest := by
  have hvalid : char.val.toNat.isValidChar := char.valid
  have hchar : Char.ofNat char.val.toNat = char := Char.ofNat_toNat char
  unfold Nat.isValidChar at hvalid
  rw [String.utf8EncodeChar]
  generalize char.val.toNat = n at hvalid hchar
  obtain ⟨last, hlast, hlastNat⟩ := exists_byte (show n % 64 + 128 < 256 by omega)
  obtain ⟨middle, hmiddle, hmiddleNat⟩ := exists_byte (show n / 64 % 64 + 128 < 256 by omega)
  obtain ⟨upper, hupper, hupperNat⟩ := exists_byte (show n / 4096 % 64 + 128 < 256 by omega)
  have hcontinues {b : UInt8} {m : Nat} (hb : b.toNat = m % 64 + 128) : isContinuation b = true :=
    isContinuation_iff.2 (by omega)
  by_cases hone : n ≤ 127
  · obtain ⟨a, ha, haNat⟩ := exists_byte (show n < 256 by omega)
    refine ⟨index + 1, ?_⟩
    simp only [if_pos hone, ha, List.singleton_append]
    rw [decodeFrom_one (by omega), haNat, hchar]
  by_cases htwo : n ≤ 2047
  · obtain ⟨a, ha, haNat⟩ := exists_byte (show n / 64 % 32 + 192 < 256 by omega)
    have hn : a.toNat % 32 * 64 + payload last = n := by
      unfold payload
      omega
    refine ⟨index + 2, ?_⟩
    simp only [if_neg hone, if_pos htwo, ha, hlast, List.cons_append, List.nil_append]
    rw [decodeFrom_two (by omega) (hcontinues hlastNat), hn, hchar]
  by_cases hthree : n ≤ 65535
  · obtain ⟨a, ha, haNat⟩ := exists_byte (show n / 4096 % 16 + 224 < 256 by omega)
    have hn : (a.toNat % 16 * 64 + payload middle) * 64 + payload last = n := by
      unfold payload
      omega
    have hsecond : isSecondOfThree a middle = true := by
      apply isSecondOfThree_iff.2
      constructor
      · split <;> omega
      · split <;> omega
    refine ⟨index + 3, ?_⟩
    simp only [if_neg hone, if_neg htwo, if_pos hthree, ha, hmiddle, hlast, List.cons_append,
      List.nil_append]
    rw [decodeFrom_three (by omega) hsecond (hcontinues hlastNat), hn, hchar]
  · obtain ⟨a, ha, haNat⟩ := exists_byte (show n / 262144 % 8 + 240 < 256 by omega)
    have hn : ((a.toNat % 8 * 64 + payload upper) * 64 + payload middle) * 64 + payload last =
        n := by
      unfold payload
      omega
    have hsecond : isSecondOfFour a upper = true := by
      apply isSecondOfFour_iff.2
      constructor
      · split <;> omega
      · split <;> omega
    refine ⟨index + 4, ?_⟩
    simp only [if_neg hone, if_neg htwo, if_neg hthree, ha, hupper, hmiddle, hlast,
      List.cons_append, List.nil_append]
    rw [decodeFrom_four (by omega) hsecond (hcontinues hmiddleNat) (hcontinues hlastNat), hn, hchar]

theorem decodeFrom_flatMap (index : Nat) (cs : List Char) :
    decodeFrom index (cs.flatMap String.utf8EncodeChar) = .ok cs := by
  induction cs generalizing index with
  | nil => rw [List.flatMap_nil, decodeFrom]
  | cons c cs ih =>
    obtain ⟨next, hnext⟩ := decodeFrom_encodeChar index c (cs.flatMap String.utf8EncodeChar)
    rw [List.flatMap_cons, hnext, ih next]
    rfl

/-- The text that bytes are decoded as is the one that they are the bytes of. -/
theorem decode_eq_ok_iff {bytes : List UInt8} {s : String} :
    decode bytes = .ok s ↔ bytes = bytesOf s := by
  constructor
  · intro h
    obtain ⟨cs, hcs, rfl⟩ := map_eq_ok.1 h
    rw [bytesOf, String.toList_ofList]
    exact eq_flatMap_of_decodeFrom hcs
  · rintro rfl
    exact map_eq_ok.2 ⟨s.toList, decodeFrom_flatMap 0 s.toList, String.ofList_toList⟩

end Reactor.Text.Utf8

import Mathlib.Algebra.Ring.Parity
import Reactor.Proofs.Placeholder
import Reactor.Proofs.Text.Trim

/-!
# Runs of dollar signs

A text is read run by run of its dollar signs. A run that is not followed by an opening brace means
itself. Before an opening brace one dollar sign of the run does not count as text: it escapes the
brace if the run is even, and it opens a placeholder if the run is odd. Reading fails at the first
placeholder that is not closed or that is blank, and the failure tells where the last dollar sign of
its run is.
-/

namespace Reactor.Placeholder

/-- The segments with literal text put before them. Text before a literal becomes a part of it. -/
def prepend : List Char → List Segment → List Segment
  | [], segments => segments
  | text, .literal other :: rest => .literal (String.ofList (text ++ other.toList)) :: rest
  | text, segments => .literal (String.ofList text) :: segments

def dollars (n : Nat) : List Char :=
  List.replicate n '$'

/-- The position in bytes of what follows the given text. -/
def offset (before : List Char) : Nat :=
  (String.ofList before).utf8ByteSize

/-- What is read of a text from some point on, given the text before that point. Each run of dollar
signs is read at once. -/
inductive Reads : List Char → List Char → Except Failure (List Segment) → Prop
  | nil {before : List Char} : Reads before [] (.ok [])
  /-- Text without dollar signs means itself. -/
  | text {before rest : List Char} {outcome : Except Failure (List Segment)} {c : Char}
    (hc : c ≠ '$') (h : Reads (before ++ [c]) rest outcome) :
    Reads before (c :: rest) (prepend [c] <$> outcome)
  /-- So does a run that no opening brace follows. -/
  | run {before rest : List Char} {outcome : Except Failure (List Segment)} {n : Nat}
    (hn : 0 < n) (hdollar : rest.head? ≠ some '$') (hbrace : rest.head? ≠ some '{')
    (h : Reads (before ++ dollars n) rest outcome) :
    Reads before (dollars n ++ rest) (prepend (dollars n) <$> outcome)
  /-- The last sign of an even run escapes the opening brace. -/
  | escape {before rest : List Char} {outcome : Except Failure (List Segment)} {n : Nat}
    (hn : 0 < n) (heven : Even n) (h : Reads (before ++ dollars n ++ ['{']) rest outcome) :
    Reads before (dollars n ++ '{' :: rest) (prepend (dollars (n - 1) ++ ['{']) <$> outcome)
  /-- The last sign of an odd run opens a placeholder, which goes up to the next closing brace. -/
  | placeholder {before body rest : List Char} {outcome : Except Failure (List Segment)} {n : Nat}
    (hodd : Odd n) (hclose : '}' ∉ body) (hbody : ∃ c ∈ body, Text.isBlank c = false)
    (h : Reads (before ++ dollars n ++ ['{'] ++ body ++ ['}']) rest outcome) :
    Reads before (dollars n ++ '{' :: (body ++ '}' :: rest))
      ((fun segments ↦ prepend (dollars (n - 1))
        (.property (Text.trim (String.ofList body)) :: segments)) <$> outcome)
  /-- A blank placeholder ends the reading. -/
  | blank {before body rest : List Char} {n : Nat} (hodd : Odd n) (hclose : '}' ∉ body)
    (hbody : ∀ c ∈ body, Text.isBlank c = true) :
    Reads before (dollars n ++ '{' :: (body ++ '}' :: rest))
      (.error (.empty (offset (before ++ dollars (n - 1)))))
  /-- So does a placeholder that is not closed. -/
  | unclosed {before rest : List Char} {n : Nat} (hodd : Odd n) (hclose : '}' ∉ rest) :
    Reads before (dollars n ++ '{' :: rest)
      (.error (.unclosed (offset (before ++ dollars (n - 1)))))

variable {before rest body : List Char} {c : Char} {n : Nat}
  {outcome : Except Failure (List Segment)}

/-! ## Literal text in front -/

theorem prepend_prepend (text text' : List Char) (segments : List Segment) :
    prepend text (prepend text' segments) = prepend (text ++ text') segments := by
  cases text with
  | nil => rfl
  | cons c text =>
    cases text' with
    | nil => rw [prepend, List.append_nil]
    | cons c' text' =>
      rcases segments with _ | ⟨other | name, rest⟩ <;>
        simp only [prepend, String.toList_ofList, List.append_assoc, List.cons_append]

theorem prepend_map_prepend (text text' : List Char) (outcome : Except Failure (List Segment)) :
    prepend text <$> prepend text' <$> outcome = prepend (text ++ text') <$> outcome := by
  rw [Functor.map_map]
  congr 1
  funext segments
  exact prepend_prepend text text' segments

theorem prepend_nil_map (outcome : Except Failure (List Segment)) :
    prepend [] <$> outcome = outcome :=
  id_map outcome

theorem prepend_literal (text : List Char) (other : String) (rest : List Segment) :
    prepend text (.literal other :: rest) =
      .literal (String.ofList (text ++ other.toList)) :: rest := by
  cases text with
  | nil => rw [prepend, List.nil_append, String.ofList_toList]
  | cons c text => rfl

theorem prepend_of_head? {text : List Char} {segments : List Segment} (htext : text ≠ [])
    (h : ∀ other, segments.head? ≠ some (.literal other)) :
    prepend text segments = .literal (String.ofList text) :: segments := by
  obtain ⟨c, text, rfl⟩ := List.exists_cons_of_ne_nil htext
  rcases segments with _ | ⟨other | name, rest⟩
  · rfl
  · exact absurd rfl (h other)
  · rfl

/-- Text that was read so far becomes a literal before a placeholder and at the end. -/
theorem prepend_reverse (read : List Char) {segments : List Segment}
    (h : ∀ text, segments.head? ≠ some (.literal text)) :
    prepend read.reverse segments = pending read ++ segments := by
  cases read with
  | nil => rfl
  | cons c read => rw [prepend_of_head? (by simp) h, pending, if_neg (by simp),
      List.singleton_append]

/-! ## Positions -/

theorem offset_append (before text : List Char) :
    offset (before ++ text) = offset before + offset text := by
  rw [offset, String.ofList_append, String.utf8ByteSize_append, offset, offset]

theorem offset_singleton (c : Char) : offset [c] = c.utf8Size := by
  rw [offset, ← String.singleton_eq_ofList, String.utf8ByteSize_singleton]

theorem offset_dollars (n : Nat) : offset (dollars n) = n := by
  induction n with
  | zero => rfl
  | succ n ih =>
    rw [dollars, List.replicate_succ', offset_append, offset_singleton, ← dollars, ih]
    rfl

/-! ## Names -/

theorem scan_name_of_notMem (hclose : '}' ∉ rest) (position start : Nat) (read : List Char) :
    scan position (.name start read) rest = .error (.unclosed start) := by
  induction rest generalizing position read with
  | nil => rw [scan]
  | cons c rest ih =>
    rw [List.mem_cons, not_or] at hclose
    rw [scan, ih hclose.2]
    exact Ne.symm hclose.1

theorem scan_name (hclose : '}' ∉ body) (position start : Nat) (read rest : List Char) :
    scan position (.name start read) (body ++ '}' :: rest) =
      if Text.trimChars (read.reverse ++ body) = [] then .error (.empty start)
      else (.property (String.ofList (Text.trimChars (read.reverse ++ body))) :: ·) <$>
        scan (position + offset body + 1) (.literal []) rest := by
  induction body generalizing position read with
  | nil =>
    rw [List.nil_append, List.append_nil, scan]
    simp [offset]
  | cons c body ih =>
    rw [List.mem_cons, not_or] at hclose
    have hoffset : position + c.utf8Size + offset body = position + offset (c :: body) := by
      rw [← List.singleton_append, offset_append, offset_singleton, Nat.add_assoc]
    rw [List.cons_append, scan, ih hclose.2, hoffset, List.reverse_cons, List.append_assoc,
      List.singleton_append]
    exact Ne.symm hclose.1

/-! ## The scan from a point on -/

/-- A literal that was read in part is a literal that begins with that part. -/
theorem scan_literal_append (position : Nat) (read base chars : List Char) :
    scan position (.literal (read ++ base)) chars =
      prepend base.reverse <$> scan position (.literal read) chars := by
  generalize hstate : Scan.literal read = state
  fun_induction scan position state chars generalizing read with
  | case1 position read =>
    obtain rfl := Scan.literal.inj hstate
    have hnil (read : List Char) : pending read = prepend read.reverse [] := by
      rw [prepend_reverse read (by simp), List.append_nil]
    rw [scan, hnil, hnil]
    change Except.ok _ = Except.ok _
    rw [prepend_prepend, List.reverse_append]
  | case2 position read rest ih =>
    obtain rfl := Scan.literal.inj hstate
    rw [scan]
    exact ih _ rfl
  | case3 position read rest hbrace ih =>
    obtain rfl := Scan.literal.inj hstate
    rw [scan]
    · exact ih _ rfl
    · exact hbrace
  | case4 position read rest ih =>
    obtain rfl := Scan.literal.inj hstate
    rw [scan]
    by_cases hclose : '}' ∈ rest
    · obtain ⟨body, tail, rfl, hbody⟩ := List.eq_append_cons_of_mem hclose
      rw [scan_name hbody]
      split
      · rfl
      · simp only [Functor.map_map]
        congr 1
        funext segments
        rw [← prepend_reverse _ (by simp), ← prepend_reverse _ (by simp), prepend_prepend,
          List.reverse_append]
    · rw [scan_name_of_notMem hclose]
      rfl
  | case5 position read c rest hescape hdollars hbrace ih =>
    obtain rfl := Scan.literal.inj hstate
    rw [scan]
    · exact ih _ rfl
    · exact hescape
    · exact hdollars
    · exact hbrace
  | _ => cases hstate

theorem scan_literal (position : Nat) (read chars : List Char) :
    scan position (.literal read) chars =
      prepend read.reverse <$> scan position (.literal []) chars :=
  scan_literal_append position [] read chars

/-- What is read of a text from a point outside of placeholders on. -/
def readFrom (before rest : List Char) : Except Failure (List Segment) :=
  scan (offset before) (.literal []) rest

theorem readFrom_append (before text rest : List Char) :
    scan (offset before + offset text) (.literal text.reverse) rest =
      prepend text <$> readFrom (before ++ text) rest := by
  rw [scan_literal, List.reverse_reverse, ← offset_append, readFrom]

theorem readFrom_nil (before : List Char) : readFrom before [] = .ok [] := by
  rw [readFrom, scan]
  rfl

theorem readFrom_cons (hc : c ≠ '$') (before rest : List Char) :
    readFrom before (c :: rest) = prepend [c] <$> readFrom (before ++ [c]) rest := by
  rw [← readFrom_append, offset_singleton, readFrom, scan]
  · rfl
  · exact fun _ hdollar _ ↦ hc hdollar
  · exact fun _ hdollar _ ↦ hc hdollar
  · exact fun _ hdollar _ ↦ hc hdollar

theorem readFrom_single (hdollar : rest.head? ≠ some '$') (hbrace : rest.head? ≠ some '{')
    (before : List Char) :
    readFrom before ('$' :: rest) = prepend ['$'] <$> readFrom (before ++ ['$']) rest := by
  rw [← readFrom_append, offset_singleton, readFrom, scan]
  · rfl
  · rintro tail - rfl
    exact hdollar rfl
  · rintro tail - rfl
    exact hdollar rfl
  · rintro tail - rfl
    exact hbrace rfl

theorem readFrom_pair (hbrace : rest.head? ≠ some '{') (before : List Char) :
    readFrom before ('$' :: '$' :: rest) =
      prepend ['$', '$'] <$> readFrom (before ++ ['$', '$']) rest := by
  rw [← readFrom_append, readFrom, scan]
  · rfl
  · rintro tail rfl
    exact hbrace rfl

theorem readFrom_escape (before rest : List Char) :
    readFrom before ('$' :: '$' :: '{' :: rest) =
      prepend ['$', '{'] <$> readFrom (before ++ ['$', '$', '{']) rest := by
  rw [readFrom, scan, scan_literal, readFrom, offset_append]
  rfl

theorem readFrom_brace (before rest : List Char) :
    readFrom before ('$' :: '{' :: rest) =
      scan (offset before + 2) (.name (offset before) []) rest := by
  rw [readFrom, scan]
  exact id_map _

/-! ## Runs -/

theorem dollars_add (m n : Nat) : dollars (m + n) = dollars m ++ dollars n :=
  List.replicate_add m n '$'

theorem head?_dollars_append (hbrace : rest.head? ≠ some '{') (n : Nat) :
    (dollars n ++ rest).head? ≠ some '{' := by
  cases n with
  | zero => exact hbrace
  | succ n => simp [dollars, List.replicate_succ]

/-- Dollar signs are read in pairs. -/
theorem readFrom_pairs (hbrace : rest.head? ≠ some '{') (before : List Char) (pairs : Nat) :
    readFrom before (dollars (2 * pairs) ++ rest) =
      prepend (dollars (2 * pairs)) <$> readFrom (before ++ dollars (2 * pairs)) rest := by
  induction pairs generalizing before with
  | zero => rw [Nat.mul_zero, dollars, List.replicate_zero, prepend_nil_map, List.append_nil,
      List.nil_append]
  | succ pairs ih =>
    rw [Nat.mul_succ, Nat.add_comm, dollars_add, List.append_assoc]
    change readFrom before ('$' :: '$' :: (dollars (2 * pairs) ++ rest)) = _
    rw [readFrom_pair (head?_dollars_append hbrace _), ih, prepend_map_prepend, List.append_assoc]
    rfl

/-- A run of dollar signs that no opening brace follows means itself. -/
theorem readFrom_dollars (hdollar : rest.head? ≠ some '$') (hbrace : rest.head? ≠ some '{')
    (before : List Char) (n : Nat) :
    readFrom before (dollars n ++ rest) =
      prepend (dollars n) <$> readFrom (before ++ dollars n) rest := by
  rcases Nat.even_or_odd' n with ⟨pairs, rfl | rfl⟩
  · exact readFrom_pairs hbrace before pairs
  · have hnext : ('$' :: rest).head? ≠ some '{' := by
      simp
    calc
      readFrom before (dollars (2 * pairs + 1) ++ rest) =
          readFrom before (dollars (2 * pairs) ++ '$' :: rest) := by
        rw [dollars_add, List.append_assoc]
        rfl
      _ = prepend (dollars (2 * pairs)) <$>
          readFrom (before ++ dollars (2 * pairs)) ('$' :: rest) :=
        readFrom_pairs hnext before pairs
      _ = prepend (dollars (2 * pairs) ++ ['$']) <$>
          readFrom (before ++ dollars (2 * pairs) ++ ['$']) rest := by
        rw [readFrom_single hdollar hbrace, prepend_map_prepend]
      _ = prepend (dollars (2 * pairs + 1)) <$>
          readFrom (before ++ dollars (2 * pairs + 1)) rest := by
        rw [dollars_add, List.append_assoc]
        rfl

/-- An even run of dollar signs escapes the opening brace after it. -/
theorem readFrom_even (hn : 0 < n) (heven : Even n) (before rest : List Char) :
    readFrom before (dollars n ++ '{' :: rest) =
      prepend (dollars (n - 1) ++ ['{']) <$> readFrom (before ++ dollars n ++ ['{']) rest := by
  obtain ⟨pairs, rfl⟩ : ∃ pairs, n = 2 * pairs + 2 := by
    obtain ⟨half, rfl⟩ := heven
    exact ⟨half - 1, by omega⟩
  have hnext : ('$' :: '$' :: '{' :: rest).head? ≠ some '{' := by
    simp
  calc
    readFrom before (dollars (2 * pairs + 2) ++ '{' :: rest) =
        readFrom before (dollars (2 * pairs) ++ '$' :: '$' :: '{' :: rest) := by
      rw [dollars_add, List.append_assoc]
      rfl
    _ = prepend (dollars (2 * pairs)) <$>
        readFrom (before ++ dollars (2 * pairs)) ('$' :: '$' :: '{' :: rest) :=
      readFrom_pairs hnext before pairs
    _ = prepend (dollars (2 * pairs) ++ ['$', '{']) <$>
        readFrom (before ++ dollars (2 * pairs) ++ ['$', '$', '{']) rest := by
      rw [readFrom_escape, prepend_map_prepend]
    _ = prepend (dollars (2 * pairs + 1) ++ ['{']) <$>
        readFrom (before ++ dollars (2 * pairs + 2) ++ ['{']) rest := by
      rw [dollars_add (2 * pairs) 1, dollars_add (2 * pairs) 2]
      simp only [List.append_assoc]
      rfl

/-- The last sign of an odd run of dollar signs opens a placeholder. -/
theorem readFrom_odd (hodd : Odd n) (before rest : List Char) :
    readFrom before (dollars n ++ '{' :: rest) =
      prepend (dollars (n - 1)) <$> scan (offset (before ++ dollars n) + 1)
        (.name (offset (before ++ dollars (n - 1))) []) rest := by
  obtain ⟨pairs, rfl⟩ := hodd
  have hnext : ('$' :: '{' :: rest).head? ≠ some '{' := by
    simp
  have hposition : offset (before ++ dollars (2 * pairs)) + 2 =
      offset (before ++ dollars (2 * pairs + 1)) + 1 := by
    rw [dollars_add, ← List.append_assoc, offset_append _ (dollars 1), offset_dollars]
  calc
    readFrom before (dollars (2 * pairs + 1) ++ '{' :: rest) =
        readFrom before (dollars (2 * pairs) ++ '$' :: '{' :: rest) := by
      rw [dollars_add, List.append_assoc]
      rfl
    _ = prepend (dollars (2 * pairs)) <$>
        readFrom (before ++ dollars (2 * pairs)) ('$' :: '{' :: rest) :=
      readFrom_pairs hnext before pairs
    _ = prepend (dollars (2 * pairs)) <$> scan (offset (before ++ dollars (2 * pairs + 1)) + 1)
        (.name (offset (before ++ dollars (2 * pairs))) []) rest := by
      rw [readFrom_brace, hposition]

/-! ## The reading of a text -/

theorem Reads.readFrom_eq (h : Reads before rest outcome) : readFrom before rest = outcome := by
  induction h with
  | nil => exact readFrom_nil _
  | text hc _ ih => rw [readFrom_cons hc, ih]
  | run _ hdollar hbrace _ ih => rw [readFrom_dollars hdollar hbrace, ih]
  | escape hn heven _ ih => rw [readFrom_even hn heven, ih]
  | @placeholder before body rest outcome n hodd hclose hbody _ ih =>
    have hname : Text.trimChars ([].reverse ++ body) ≠ [] :=
      Text.trimChars_ne_nil_iff.2 hbody
    have hposition : offset (before ++ dollars n) + 1 + offset body + 1 =
        offset (before ++ dollars n ++ ['{'] ++ body ++ ['}']) := by
      rw [offset_append _ ['}'], offset_append _ body, offset_append _ ['{']]
      rfl
    rw [readFrom_odd hodd, scan_name hclose, if_neg hname, hposition, ← readFrom, ih,
      Functor.map_map, Text.trim, String.toList_ofList]
    rfl
  | blank hodd hclose hbody =>
    rw [readFrom_odd hodd, scan_name hclose, if_pos]
    · rfl
    · exact Text.trimChars_eq_nil_iff.2 hbody
  | unclosed hodd hclose =>
    rw [readFrom_odd hodd, scan_name_of_notMem hclose]
    rfl

/-- Every text is the run of dollar signs at its front followed by other text. -/
theorem exists_run (chars : List Char) :
    ∃ n rest, chars = dollars n ++ rest ∧ rest.head? ≠ some '$' := by
  induction chars with
  | nil => exact ⟨0, [], rfl, by simp⟩
  | cons c chars ih =>
    by_cases hc : c = '$'
    · obtain ⟨n, rest, rfl, hrest⟩ := ih
      exact ⟨n + 1, rest, by rw [hc]; rfl, hrest⟩
    · exact ⟨0, c :: chars, rfl, by simpa using hc⟩

theorem exists_reads_of_braced (hodd : Odd n)
    (hrest : ∀ before tail, tail.length < rest.length → ∃ outcome, Reads before tail outcome) :
    ∃ outcome, Reads before (dollars n ++ '{' :: rest) outcome := by
  by_cases hclose : '}' ∈ rest
  · obtain ⟨body, tail, rfl, hbody⟩ := List.eq_append_cons_of_mem hclose
    by_cases hblank : ∀ c ∈ body, Text.isBlank c = true
    · exact ⟨_, .blank hodd hbody hblank⟩
    · obtain ⟨outcome, houtcome⟩ := hrest (before ++ dollars n ++ ['{'] ++ body ++ ['}']) tail
        (by simp only [List.length_append, List.length_cons]; omega)
      exact ⟨_, .placeholder hodd hbody (by simpa using hblank) houtcome⟩
  · exact ⟨_, .unclosed hodd hclose⟩

theorem exists_reads (before rest : List Char) : ∃ outcome, Reads before rest outcome := by
  induction hlength : rest.length using Nat.strong_induction_on generalizing before rest with
  | _ length ih =>
    have hread (before tail : List Char) (hlt : tail.length < length) :
        ∃ outcome, Reads before tail outcome :=
      ih tail.length hlt before tail rfl
    obtain ⟨n, tail, rfl, hdollar⟩ := exists_run rest
    rw [List.length_append, dollars, List.length_replicate] at hlength
    rcases Nat.eq_zero_or_pos n with rfl | hn
    · cases tail with
      | nil => exact ⟨_, .nil⟩
      | cons c tail =>
        obtain ⟨outcome, houtcome⟩ := hread (before ++ [c]) tail (by simp at hlength; omega)
        exact ⟨_, .text (by simpa using hdollar) houtcome⟩
    · by_cases hbrace : tail.head? = some '{'
      · obtain ⟨rest, rfl⟩ := List.head?_eq_some_iff.1 hbrace
        have hlt : rest.length < length := by
          rw [List.length_cons] at hlength
          omega
        rcases Nat.even_or_odd n with heven | hodd
        · obtain ⟨outcome, houtcome⟩ := hread (before ++ dollars n ++ ['{']) rest hlt
          exact ⟨_, .escape hn heven houtcome⟩
        · exact exists_reads_of_braced hodd fun before tail htail ↦
            hread before tail (htail.trans hlt)
      · obtain ⟨outcome, houtcome⟩ := hread (before ++ dollars n) tail (by omega)
        exact ⟨_, .run hn hdollar hbrace houtcome⟩

/-- Every text is read run by run, from any point outside of placeholders on. -/
theorem reads_readFrom (before rest : List Char) : Reads before rest (readFrom before rest) := by
  obtain ⟨outcome, houtcome⟩ := exists_reads before rest
  rw [houtcome.readFrom_eq]
  exact houtcome

/-- Parsing a text reads it run by run. It returns the segments that are read, or the failure at the
first placeholder that is not closed or blank. -/
theorem parse_eq_iff_reads {text : String} :
    parse text = outcome ↔ Reads [] text.toList outcome := by
  constructor
  · rintro rfl
    exact reads_readFrom [] text.toList
  · intro h
    exact h.readFrom_eq

example : parse "é$$$$\x7bx\x7d$$$\x7b\t\x7d" = .error (.empty 11) := by
  decide

end Reactor.Placeholder

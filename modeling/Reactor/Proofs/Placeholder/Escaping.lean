import Mathlib.Data.List.Chain
import Mathlib.Data.List.DropRight
import Reactor.Proofs.Placeholder.DollarRuns

/-!
# Escaping

Segments can be written as a text again: a reference as it is, and literal text with one more dollar
sign in every run that an opening brace follows. Not every list of segments is what some text is
read as. For example, two dollar signs before an opening brace cannot stand in a literal, because an
escaped brace always comes with an odd run. The lists that can be read are described below, and each
of them is read back from the text that it is written as.
-/

namespace Reactor.Placeholder

/-- How many dollar signs a text ends in. -/
def closingDollars (chars : List Char) : Nat :=
  (chars.rtakeWhile (· = '$')).length

/-- Every run of dollar signs that an opening brace follows is odd. -/
def OddRuns (chars : List Char) : Prop :=
  ∀ front back, chars = front ++ '{' :: back → 0 < closingDollars front → Odd (closingDollars front)

/-- Literal text that can be read is not empty. A name is not empty, it has no white space at its
ends, and it does not contain the brace that would close it. -/
def Segment.IsReadable : Segment → Prop
  | literal text => text ≠ "" ∧ OddRuns text.toList
  | property name => name ≠ "" ∧ Text.trim name = name ∧ '}' ∉ name.toList

/-- Whether a segment may stand directly before another one. Two literals would be one, and an odd
number of dollar signs at the end of a literal would escape the reference after it. -/
def Segment.MayPrecede : Segment → Segment → Prop
  | literal _, literal _ => False
  | literal text, property _ => Even (closingDollars text.toList)
  | property _, _ => True

/-- The lists of segments that some text is read as. -/
structure IsReadable (segments : List Segment) : Prop where
  each : ∀ segment ∈ segments, segment.IsReadable
  neighbours : segments.IsChain Segment.MayPrecede

/-- Literal text with one more dollar sign in every run that an opening brace follows. -/
def escape : List Char → List Char
  | '$' :: '{' :: rest => '$' :: '$' :: '{' :: escape rest
  | c :: rest => c :: escape rest
  | [] => []

/-- The text of a segment from which it can be read back. -/
def Segment.escaped : Segment → String
  | literal text => String.ofList (escape text.toList)
  | property name => reference name

/-- The text of segments from which they can be read back. -/
def escaped (segments : List Segment) : String :=
  String.join (segments.map Segment.escaped)

variable {before rest chars tail : List Char} {c : Char} {n : Nat} {segment : Segment}
  {segments : List Segment} {outcome : Except Failure (List Segment)}

/-! ## The runs of a text -/

/-- A text is a run of dollar signs, or such a run, another character and a text. -/
@[elab_as_elim]
theorem runs_induction {motive : List Char → Prop} (last : ∀ n, motive (dollars n))
    (step : ∀ n c rest, c ≠ '$' → motive rest → motive (dollars n ++ c :: rest))
    (chars : List Char) : motive chars := by
  induction hlength : chars.length using Nat.strong_induction_on generalizing chars with
  | _ length ih =>
    obtain ⟨n, tail, rfl, htail⟩ := exists_run chars
    cases tail with
    | nil =>
      rw [List.append_nil]
      exact last n
    | cons c rest =>
      rw [List.length_append, List.length_cons] at hlength
      apply step
      · simpa using htail
      · exact ih rest.length (by omega) rest rfl

theorem closingDollars_dollars (n : Nat) : closingDollars (dollars n) = n := by
  rw [closingDollars, dollars, List.rtakeWhile_eq_self_iff.2, List.length_replicate]
  simp

theorem closingDollars_append_cons (hc : c ≠ '$') (front rest : List Char) :
    closingDollars (front ++ c :: rest) = closingDollars rest := by
  unfold closingDollars
  induction rest using List.reverseRecOn with
  | nil => rw [List.rtakeWhile_concat_neg _ _ _ (by simpa using hc), List.rtakeWhile_nil]
  | append_singleton rest d ih =>
    rw [← List.cons_append, ← List.append_assoc, List.rtakeWhile_concat, List.rtakeWhile_concat]
    split
    · rw [List.length_append, List.length_append, ih]
    · rfl

theorem brace_notMem_dollars (n : Nat) : '{' ∉ dollars n := by
  intro h
  cases List.eq_of_mem_replicate h

theorem oddRuns_dollars (n : Nat) : OddRuns (dollars n) := by
  intro front back h
  exact absurd (h ▸ List.mem_append_right front List.mem_cons_self) (brace_notMem_dollars n)

/-- The runs of a text are the one at its front and those after it. -/
theorem oddRuns_append_cons (hc : c ≠ '$') :
    OddRuns (dollars n ++ c :: rest) ↔ (c = '{' → 0 < n → Odd n) ∧ OddRuns rest := by
  constructor
  · intro h
    constructor
    · intro hbrace hn
      have hfront := h (dollars n) rest (by rw [hbrace])
      rw [closingDollars_dollars] at hfront
      exact hfront hn
    · intro front back hrest
      have hfront := h (dollars n ++ c :: front) back (by rw [hrest, List.append_assoc]; rfl)
      rwa [closingDollars_append_cons hc] at hfront
  · rintro ⟨hfirst, hothers⟩ front back h
    rcases List.append_eq_append_iff.1 h with ⟨between, rfl, htail⟩ | ⟨between, hrun, htail⟩
    · cases between with
      | nil =>
        rw [List.append_nil, closingDollars_dollars]
        exact hfirst (List.cons.inj htail).1
      | cons d between =>
        obtain ⟨rfl, hrest⟩ := List.cons.inj htail
        rw [closingDollars_append_cons hc]
        exact hothers between back hrest
    · cases between with
      | nil =>
        rw [List.append_nil] at hrun
        rw [← hrun, closingDollars_dollars]
        exact hfirst (List.cons.inj htail).1.symm
      | cons d between =>
        obtain ⟨rfl, -⟩ := List.cons.inj htail
        exact absurd (hrun ▸ List.mem_append_right front List.mem_cons_self)
          (brace_notMem_dollars n)

/-! ## What is read can be read back -/

theorem isReadable_nil : IsReadable [] :=
  ⟨by simp, .nil⟩

theorem isReadable_cons :
    IsReadable (segment :: segments) ↔
      segment.IsReadable ∧ (∀ next ∈ segments.head?, segment.MayPrecede next) ∧
        IsReadable segments := by
  constructor
  · rintro ⟨heach, hneighbours⟩
    rw [List.forall_mem_cons] at heach
    rw [List.isChain_cons] at hneighbours
    exact ⟨heach.1, hneighbours.1, heach.2, hneighbours.2⟩
  · rintro ⟨hsegment, hnext, heach, hneighbours⟩
    exact ⟨List.forall_mem_cons.2 ⟨hsegment, heach⟩, List.isChain_cons.2 ⟨hnext, hneighbours⟩⟩

theorem mayPrecede_literal_append_cons (hc : c ≠ '$') (front : List Char) (next : Segment) :
    (Segment.literal (String.ofList (front ++ c :: rest))).MayPrecede next ↔
      (Segment.literal (String.ofList rest)).MayPrecede next := by
  cases next with
  | literal text => rfl
  | property name =>
    rw [Segment.MayPrecede, Segment.MayPrecede, String.toList_ofList, String.toList_ofList,
      closingDollars_append_cons hc]

/-- The first run of a literal matters only if an opening brace follows it. -/
theorem isReadable_literal_append_cons (hc : c ≠ '$') :
    IsReadable (.literal (String.ofList (dollars n ++ c :: rest)) :: segments) ↔
      (c = '{' → 0 < n → Odd n) ∧ OddRuns rest ∧
        (∀ next ∈ segments.head?, (Segment.literal (String.ofList rest)).MayPrecede next) ∧
          IsReadable segments := by
  have hne : String.ofList (dollars n ++ c :: rest) ≠ "" := by
    simp
  simp only [isReadable_cons, Segment.IsReadable, hne, String.toList_ofList,
    oddRuns_append_cons hc, mayPrecede_literal_append_cons hc, ne_eq, not_false_eq_true, true_and,
    and_assoc]

/-- Text that is put before segments goes into a literal at their front. The part of this literal
that was there before is empty if there was none. -/
theorem exists_prepend_eq (segments : List Segment) : ∃ text others,
    (∀ front c, prepend (front ++ [c]) segments =
      .literal (String.ofList (front ++ c :: text)) :: others) ∧
    (IsReadable segments → OddRuns text ∧
      (∀ next ∈ others.head?, (Segment.literal (String.ofList text)).MayPrecede next) ∧
        IsReadable others) := by
  cases segments with
  | nil =>
    refine ⟨[], [], fun front c ↦ ?_, fun h ↦ ⟨oddRuns_dollars 0, by simp, h⟩⟩
    exact prepend_of_head? (by simp) (by simp)
  | cons segment rest =>
    cases segment with
    | literal text =>
      refine ⟨text.toList, rest, fun front c ↦ ?_, fun h ↦ ?_⟩
      · rw [prepend_literal, List.append_assoc, List.singleton_append]
      · rw [String.ofList_toList]
        obtain ⟨htext, hnext, hrest⟩ := isReadable_cons.1 h
        exact ⟨htext.2, hnext, hrest⟩
    | property name =>
      refine ⟨[], .property name :: rest, fun front c ↦ ?_, fun h ↦ ⟨oddRuns_dollars 0, ?_, h⟩⟩
      · exact prepend_of_head? (by simp) (by simp)
      · intro next hnext
        obtain rfl : .property name = next := by simpa using hnext
        exact ⟨0, rfl⟩

theorem isReadable_prepend_append (hc : c ≠ '$') :
    IsReadable (prepend (dollars n ++ [c]) segments) ↔
      (c = '{' → 0 < n → Odd n) ∧ IsReadable (prepend [c] segments) := by
  obtain ⟨text, others, hprepend, -⟩ := exists_prepend_eq segments
  have hsingleton : prepend [c] segments =
      .literal (String.ofList (dollars 0 ++ c :: text)) :: others :=
    hprepend [] c
  rw [hprepend, hsingleton, isReadable_literal_append_cons hc, isReadable_literal_append_cons hc]
  simp

/-- A character other than a dollar sign can be put before anything that can be read. -/
theorem IsReadable.prepend_singleton (hc : c ≠ '$') (h : IsReadable segments) :
    IsReadable (prepend [c] segments) := by
  obtain ⟨text, others, hprepend, hothers⟩ := exists_prepend_eq segments
  have hsingleton : prepend [c] segments =
      .literal (String.ofList (dollars 0 ++ c :: text)) :: others :=
    hprepend [] c
  rw [hsingleton, isReadable_literal_append_cons hc]
  exact ⟨by simp, hothers h⟩

theorem prepend_toList {text : String} (htext : text ≠ "")
    (hnext : ∀ next ∈ segments.head?, (Segment.literal text).MayPrecede next) :
    prepend text.toList segments = .literal text :: segments := by
  rw [prepend_of_head? (by simpa using htext) fun other hother ↦ hnext _ hother,
    String.ofList_toList]

/-- So can a run of dollar signs, if it may stand before the first segment. -/
theorem IsReadable.prepend_dollars (h : IsReadable segments)
    (hnext : ∀ next ∈ segments.head?,
      (Segment.literal (String.ofList (dollars n))).MayPrecede next) :
    IsReadable (prepend (dollars n) segments) := by
  cases n with
  | zero => exact h
  | succ n =>
    have htext : String.ofList (dollars (n + 1)) ≠ "" := by
      simp [dollars]
    have hprepend := prepend_toList htext hnext
    rw [String.toList_ofList] at hprepend
    rw [hprepend, isReadable_cons, Segment.IsReadable, String.toList_ofList]
    exact ⟨⟨htext, oddRuns_dollars (n + 1)⟩, hnext, h⟩

theorem isReadable_trim {body : List Char} (hclose : '}' ∉ body)
    (hbody : ∃ c ∈ body, Text.isBlank c = false) :
    (Segment.property (Text.trim (String.ofList body))).IsReadable := by
  rw [Text.trim, String.toList_ofList]
  refine ⟨?_, ?_, ?_⟩
  · intro hempty
    exact Text.trimChars_ne_nil_iff.2 hbody (String.ofList_eq_empty_iff.1 hempty)
  · rw [Text.trim, String.toList_ofList, Text.trimChars_trimChars]
  · rw [String.toList_ofList]
    intro hmem
    exact hclose (Text.mem_of_mem_trimChars hmem)

/-- What is read begins with a literal if the text does not begin with a dollar sign. -/
theorem exists_eq_prepend_of_reads (hc : c ≠ '$') (h : Reads before (c :: rest) (.ok segments)) :
    ∃ others, segments = prepend [c] others := by
  have hread := h.readFrom_eq
  rw [readFrom_cons hc] at hread
  obtain ⟨others, -, hothers⟩ := map_eq_ok.1 hread
  exact ⟨others, hothers.symm⟩

theorem Reads.isReadable (h : Reads before rest outcome) (hsegments : outcome = .ok segments) :
    IsReadable segments := by
  induction h generalizing segments with
  | nil =>
    obtain rfl := Except.ok.inj hsegments
    exact isReadable_nil
  | text hc _ ih =>
    obtain ⟨others, hothers, rfl⟩ := map_eq_ok.1 hsegments
    exact (ih hothers).prepend_singleton hc
  | @run before rest outcome n hn hdollar hbrace h ih =>
    obtain ⟨others, rfl, rfl⟩ := map_eq_ok.1 hsegments
    cases rest with
    | nil =>
      obtain rfl : [] = others := Except.ok.inj ((readFrom_nil _).symm.trans h.readFrom_eq)
      exact isReadable_nil.prepend_dollars (by simp)
    | cons c rest =>
      -- The run becomes a part of the literal that the rest begins with.
      have hc : c ≠ '$' := by simpa using hdollar
      obtain ⟨others, rfl⟩ := exists_eq_prepend_of_reads hc h
      rw [prepend_prepend, isReadable_prepend_append hc]
      exact ⟨fun h ↦ absurd h (by simpa using hbrace), ih rfl⟩
  | escape hn heven _ ih =>
    obtain ⟨others, hothers, rfl⟩ := map_eq_ok.1 hsegments
    rw [isReadable_prepend_append (by decide)]
    exact ⟨fun _ _ ↦ Nat.Even.sub_odd hn heven odd_one,
      (ih hothers).prepend_singleton (by decide)⟩
  | @placeholder before body rest outcome n hodd hclose hbody _ ih =>
    obtain ⟨others, hothers, rfl⟩ := map_eq_ok.1 hsegments
    have hproperty : IsReadable (.property (Text.trim (String.ofList body)) :: others) :=
      isReadable_cons.2 ⟨isReadable_trim hclose hbody, fun _ _ ↦ trivial, ih hothers⟩
    apply hproperty.prepend_dollars
    intro next hnext
    obtain rfl := Option.some.inj hnext
    rw [Segment.MayPrecede, String.toList_ofList, closingDollars_dollars]
    exact Nat.Odd.sub_odd hodd odd_one
  | blank => cases hsegments
  | unclosed => cases hsegments

/-! ## Reading back -/

theorem escape_cons (hc : c ≠ '$') (rest : List Char) : escape (c :: rest) = c :: escape rest := by
  rw [escape]
  rintro tail rfl
  exact absurd rfl hc

/-- A run stays as it is if no opening brace follows it. -/
theorem escape_dollars_append (hbrace : rest.head? ≠ some '{') (n : Nat) :
    escape (dollars n ++ rest) = dollars n ++ escape rest := by
  induction n with
  | zero => rfl
  | succ n ih =>
    change escape ('$' :: (dollars n ++ rest)) = '$' :: (dollars n ++ escape rest)
    rw [escape, ih]
    rintro tail - htail
    exact head?_dollars_append hbrace n (by rw [htail, List.head?_cons])

theorem escape_dollars (n : Nat) : escape (dollars n) = dollars n := by
  have hrun : escape (dollars n ++ []) = dollars n ++ escape [] :=
    escape_dollars_append (by simp) n
  rwa [escape, List.append_nil] at hrun

theorem escape_dollars_cons (hc : c ≠ '$') (hbrace : c = '{' → n = 0) (rest : List Char) :
    escape (dollars n ++ c :: rest) = dollars n ++ c :: escape rest := by
  cases n with
  | zero => exact escape_cons hc rest
  | succ n =>
    rw [escape_dollars_append (by simpa using hbrace), escape_cons hc]

/-- A run that an opening brace follows gets one more sign. -/
theorem escape_dollars_brace (hn : 0 < n) (rest : List Char) :
    escape (dollars n ++ '{' :: rest) = dollars (n + 1) ++ '{' :: escape rest := by
  obtain ⟨n, rfl⟩ := Nat.exists_eq_succ_of_ne_zero hn.ne'
  calc
    escape (dollars (n + 1) ++ '{' :: rest) = escape (dollars n ++ '$' :: '{' :: rest) := by
      rw [dollars_add, List.append_assoc]
      rfl
    _ = dollars n ++ '$' :: '$' :: '{' :: escape rest := by
      rw [escape_dollars_append (by simp), escape]
    _ = dollars (n + 2) ++ '{' :: escape rest := by
      rw [dollars_add, List.append_assoc]
      rfl

theorem readFrom_dollars_cons (hc : c ≠ '$') (hbrace : c = '{' → n = 0) (before rest : List Char) :
    readFrom before (dollars n ++ c :: rest) =
      prepend (dollars n ++ [c]) <$> readFrom (before ++ dollars n ++ [c]) rest := by
  cases n with
  | zero =>
    rw [dollars, List.replicate_zero, List.append_nil]
    exact readFrom_cons hc before rest
  | succ n =>
    rw [readFrom_dollars (by simpa using hc) (by simpa using hbrace), readFrom_cons hc,
      prepend_map_prepend]

/-- Escaped text is read as the text. An even run of dollar signs at its end leaves a reference
after it intact. -/
theorem readFrom_escape_append (hruns : OddRuns chars)
    (htail : tail = [] ∨ tail.head? = some '$' ∧ Even (closingDollars chars))
    (before : List Char) :
    readFrom before (escape chars ++ tail) =
      prepend chars <$> readFrom (before ++ escape chars) tail := by
  induction chars using runs_induction generalizing before with
  | last n =>
    rw [escape_dollars]
    rcases htail with rfl | ⟨hhead, heven⟩
    · exact readFrom_dollars (by simp) (by simp) before n
    · rw [closingDollars_dollars] at heven
      obtain ⟨pairs, rfl⟩ := heven.exists_two_nsmul
      exact readFrom_pairs (by simp [hhead]) before pairs
  | step n c rest hc ih =>
    rw [oddRuns_append_cons hc] at hruns
    rw [closingDollars_append_cons hc] at htail
    by_cases hbrace : c = '{' → n = 0
    · calc
        readFrom before (escape (dollars n ++ c :: rest) ++ tail) =
            readFrom before (dollars n ++ c :: (escape rest ++ tail)) := by
          rw [escape_dollars_cons hc hbrace, List.append_assoc, List.cons_append]
        _ = prepend (dollars n ++ [c]) <$>
            readFrom (before ++ dollars n ++ [c]) (escape rest ++ tail) :=
          readFrom_dollars_cons hc hbrace before _
        _ = prepend (dollars n ++ c :: rest) <$>
            readFrom (before ++ escape (dollars n ++ c :: rest)) tail := by
          rw [ih hruns.2 htail, prepend_map_prepend, escape_dollars_cons hc hbrace]
          simp only [List.append_assoc, List.singleton_append]
    · rw [Classical.not_imp] at hbrace
      obtain ⟨rfl, hzero⟩ := hbrace
      have hn : 0 < n := Nat.pos_of_ne_zero hzero
      have heven : Even (n + 1) := (hruns.1 rfl hn).add_odd odd_one
      calc
        readFrom before (escape (dollars n ++ '{' :: rest) ++ tail) =
            readFrom before (dollars (n + 1) ++ '{' :: (escape rest ++ tail)) := by
          rw [escape_dollars_brace hn, List.append_assoc, List.cons_append]
        _ = prepend (dollars n ++ ['{']) <$>
            readFrom (before ++ dollars (n + 1) ++ ['{']) (escape rest ++ tail) :=
          readFrom_even n.succ_pos heven before _
        _ = prepend (dollars n ++ '{' :: rest) <$>
            readFrom (before ++ escape (dollars n ++ '{' :: rest)) tail := by
          rw [ih hruns.2 htail, prepend_map_prepend, escape_dollars_brace hn]
          simp only [List.append_assoc, List.singleton_append]

theorem toList_reference (name : String) :
    (reference name).toList = dollars 1 ++ '{' :: (name.toList ++ ['}']) := by
  rw [reference, String.toList_append, String.toList_append]
  rfl

theorem readFrom_reference_append {name : String} (hname : (Segment.property name).IsReadable)
    (before tail : List Char) :
    readFrom before ((reference name).toList ++ tail) =
      (.property name :: ·) <$> readFrom (before ++ (reference name).toList) tail := by
  obtain ⟨hne, htrim, hclose⟩ := hname
  have hbody : ∃ c ∈ name.toList, Text.isBlank c = false := by
    apply Text.trimChars_ne_nil_iff.1
    intro hempty
    apply hne
    rw [← htrim, Text.trim, hempty]
  have hread := (Reads.placeholder odd_one hclose hbody
    (reads_readFrom (before ++ dollars 1 ++ ['{'] ++ name.toList ++ ['}']) tail)).readFrom_eq
  rw [String.ofList_toList, htrim] at hread
  rw [toList_reference]
  simpa [dollars, prepend] using hread

theorem toList_escaped_cons (segment : Segment) (segments : List Segment) :
    (escaped (segment :: segments)).toList =
      segment.escaped.toList ++ (escaped segments).toList := by
  rw [escaped, List.map_cons, String.join_cons, String.toList_append, escaped]

/-- What may follow a literal does not change how the end of the literal is read. -/
theorem head?_escaped {text : String}
    (hnext : ∀ next ∈ segments.head?, (Segment.literal text).MayPrecede next) :
    (escaped segments).toList = [] ∨
      (escaped segments).toList.head? = some '$' ∧ Even (closingDollars text.toList) := by
  rcases segments with _ | ⟨other | name, rest⟩
  · exact .inl rfl
  · exact absurd (hnext _ rfl) id
  · refine .inr ⟨?_, hnext _ rfl⟩
    rw [toList_escaped_cons, Segment.escaped, toList_reference]
    rfl

theorem IsReadable.readFrom_escaped (h : IsReadable segments) (before : List Char) :
    readFrom before (escaped segments).toList = .ok segments := by
  induction segments generalizing before with
  | nil => exact readFrom_nil before
  | cons segment rest ih =>
    obtain ⟨hsegment, hnext, hrest⟩ := isReadable_cons.1 h
    rw [toList_escaped_cons]
    cases segment with
    | literal text =>
      rw [Segment.escaped, String.toList_ofList,
        readFrom_escape_append hsegment.2 (head?_escaped hnext), ih hrest]
      exact congrArg Except.ok (prepend_toList hsegment.1 hnext)
    | property name =>
      rw [Segment.escaped, readFrom_reference_append hsegment, ih hrest]
      rfl

/-- Some text is read as the given segments exactly if they satisfy the four conditions on literals,
names, runs of dollar signs and ends of literals. Their escaped text then is such a text. -/
theorem exists_parse_iff_isReadable (segments : List Segment) :
    ((∃ text, parse text = .ok segments) ↔ IsReadable segments) ∧
      (parse (escaped segments) = .ok segments ↔ IsReadable segments) := by
  have hparsed {text : String} (h : parse text = .ok segments) : IsReadable segments :=
    (reads_readFrom [] text.toList).isReadable h
  have hescaped (h : IsReadable segments) : parse (escaped segments) = .ok segments :=
    h.readFrom_escaped []
  constructor
  · constructor
    · rintro ⟨text, h⟩
      exact hparsed h
    · intro h
      exact ⟨escaped segments, hescaped h⟩
  · exact ⟨hparsed, hescaped⟩

example : escaped [.literal "a$\x7b$$", .property "b"] = "a$$\x7b$$$\x7bb\x7d" := by
  decide

end Reactor.Placeholder

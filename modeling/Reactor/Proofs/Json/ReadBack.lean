import Reactor.Json.Parser
import Reactor.Proofs.Json.Unambiguous

/-!
# Compact texts are read back

The reader of documents returns the document whose compact text it reads, if the numbers in it are
integers of 64 bits and if it is not nested deeper than the reader goes. Each part is read
where it stands, whatever has been opened before it and whatever follows it.
-/

namespace Reactor.Json

variable {rest : List Char}

/-! ## Integers -/

theorem Follows.takeWhile_isDigit (h : Follows rest) : rest.takeWhile Char.isDigit = [] := by
  cases rest with
  | nil => rfl
  | cons c rest =>
    rcases h c rfl with rfl | rfl | rfl <;> rfl

theorem Follows.dropWhile_isDigit (h : Follows rest) : rest.dropWhile Char.isDigit = rest := by
  have hsplit := List.takeWhile_append_dropWhile (p := Char.isDigit) (l := rest)
  rw [h.takeWhile_isDigit, List.nil_append] at hsplit
  exact hsplit

theorem decimal_toDigits (n : Nat) : decimal (Nat.toDigits 10 n) = n :=
  Nat.ofDigitChars_ten_toDigits

/-- No zero leads the digits of a number other than zero. -/
theorem eq_nil_of_toDigits_eq {n : Nat} {digits : List Char}
    (h : Nat.toDigits 10 n = '0' :: digits) : digits = [] := by
  induction n using Nat.strongRecOn generalizing digits with
  | ind n ih =>
    rw [Nat.toDigits_eq_if (by decide)] at h
    split at h
    case isTrue => exact (List.cons.inj h).2.symm
    case isFalse hlarge =>
      have hne : Nat.toDigits 10 (n / 10) ≠ [] := Nat.toDigits_ne_nil
      obtain ⟨c, cs, hupper⟩ := List.exists_cons_of_ne_nil hne
      rw [hupper, List.cons_append] at h
      obtain ⟨rfl, -⟩ := List.cons.inj h
      have hnil : cs = [] := ih (n / 10) (by omega) hupper
      have hzero : n / 10 = 0 := by
        rw [← decimal_toDigits (n / 10), hupper, hnil]
        rfl
      omega

theorem Literal.readExponent_of_follows (h : Follows rest) (negative : Bool) (whole length : Nat) :
    readExponent negative whole none length rest =
      .ok ⟨⟨negative, whole, none, none⟩, length, rest⟩ := by
  cases rest with
  | nil => rfl
  | cons c rest =>
    have hmark : ¬(c = 'e' ∨ c = 'E') := by
      rcases h c rfl with rfl | rfl | rfl <;> decide
    unfold readExponent
    simp only [if_neg hmark]

/-- The digits of a number end where something else follows, and no zero leads them. -/
theorem exists_digits (h : Follows rest) (n : Nat) :
    ∃ c cs, Nat.toDigits 10 n = c :: cs ∧ c.isDigit = true ∧ (c = '0' → cs = []) ∧
      (c :: (cs ++ rest)).takeWhile Char.isDigit = c :: cs ∧
      (c :: (cs ++ rest)).dropWhile Char.isDigit = rest := by
  have hne : Nat.toDigits 10 n ≠ [] := Nat.toDigits_ne_nil
  obtain ⟨c, cs, hdigits⟩ := List.exists_cons_of_ne_nil hne
  have hall : ∀ digit ∈ c :: cs, digit.isDigit = true := fun digit hdigit ↦
    Nat.isDigit_of_mem_toDigits (by decide) (by decide) (hdigits ▸ hdigit)
  refine ⟨c, cs, hdigits, hall c List.mem_cons_self, ?_, ?_, ?_⟩
  · rintro rfl
    exact eq_nil_of_toDigits_eq hdigits
  · rw [← List.cons_append, List.takeWhile_append_of_pos hall, h.takeWhile_isDigit, List.append_nil]
  · rw [← List.cons_append, List.dropWhile_append_of_pos hall, h.dropWhile_isDigit]

def sign (negative : Bool) : List Char :=
  if negative then ['-'] else []

/-- The reader of literals takes an integer for what it is. -/
theorem Literal.read_digits (h : Follows rest) (negative : Bool) (n : Nat) :
    read (sign negative ++ (Nat.toDigits 10 n ++ rest)) =
      .ok ⟨⟨negative, n, none, none⟩, (sign negative ++ Nat.toDigits 10 n).length, rest⟩ := by
  obtain ⟨c, cs, hdigits, hdigit, hzero, htake, hdrop⟩ := exists_digits h n
  have hc : c ≠ '-' := by
    rintro rfl
    cases hdigit
  have hn : decimal (c :: cs) = n := by rw [← hdigits, decimal_toDigits]
  have hpoint (more : List Char) : rest ≠ '.' :: more := by
    rintro rfl
    simp [Follows] at h
  have hleading : ¬(c = '0' ∧ ¬cs = []) := fun hboth ↦ hboth.2 (hzero hboth.1)
  rw [hdigits, List.cons_append]
  unfold read
  cases negative with
  | false => simp [sign, hc, htake, hdrop, hleading, hn, readExponent_of_follows h]
  | true =>
    simp [sign, htake, hdrop, hleading, hn, readExponent_of_follows h, Nat.add_comm]

theorem toList_toString (n : Int) :
    (toString n).toList = sign (n < 0) ++ Nat.toDigits 10 n.natAbs := by
  cases n with
  | ofNat n =>
    change n.repr.toList = _
    simp [Nat.repr_eq_ofList_toDigits, sign]
  | negSucc n => simp [Int.toString_eq_repr, Int.repr, Nat.repr_eq_ofList_toDigits, sign]

theorem number_of_fits {n : Int} (h : Fits n) (length : Nat) :
    LiteralReading.number ⟨⟨n < 0, n.natAbs, none, none⟩, length, rest⟩ = .ok (.integer n) := by
  obtain ⟨hlow, hhigh⟩ := h
  have hnumber : Literal.number? ⟨n < 0, n.natAbs, none, none⟩ = some (.integer n) := by
    by_cases hnegative : n < 0
    · have hrange : 1 ≤ n.natAbs ∧ n.natAbs ≤ 0x8000000000000000 := by omega
      simp [Literal.number?, hnegative, hrange, abs_of_neg hnegative]
    · have hrange : n.natAbs ≤ maxUnsigned := by
        unfold maxUnsigned
        omega
      simp [Literal.number?, hnegative, hrange, abs_of_nonneg (not_lt.1 hnegative)]
  rw [LiteralReading.number, hnumber]

/-! ## Tokens -/

theorem scan_append (cs rest : List Char) : scan cs.length (cs ++ rest) = scan 0 rest := by
  induction cs with
  | nil => rfl
  | cons c cs ih => exact ih

theorem scan_of_lexeme {c : Char} {cs : List Char} {token : Lexeme} (hspace : isSpace c = false)
    (hlexeme : lexeme c (cs ++ rest) = (token, cs.length))
    (hwhole : ∀ stop isQuoted, token ≠ .broken stop isQuoted) :
    scan 0 (c :: (cs ++ rest)) = ⟨token, c :: (cs ++ rest)⟩ :: scan 0 rest := by
  rw [scan, hspace, hlexeme]
  cases token with
  | broken stop isQuoted => exact absurd rfl (hwhole stop isQuoted)
  | _ => simp [scan_append]

/-- A written string is one token. -/
theorem scan_stringText (s : String) (rest : List Char) : ∃ start,
    scan 0 ((stringText s).toList ++ rest) = ⟨.string (.ok s), start⟩ :: scan 0 rest := by
  have hlexeme : lexeme '"' (s.toList.flatMap escapeChar ++ ['"'] ++ rest) =
      (.string (.ok s), (s.toList.flatMap escapeChar ++ ['"']).length) := by
    change quoted 0 0 (.ok []) _ = _
    rw [List.append_assoc, List.singleton_append, quoted_flatMap_escapeChar]
    simp
  rw [toList_stringText]
  exact ⟨_, scan_of_lexeme rfl hlexeme nofun⟩

theorem scan_null (rest : List Char) : ∃ start,
    scan 0 ("null".toList ++ rest) = ⟨.scalar (.ok .null), start⟩ :: scan 0 rest :=
  ⟨_, rfl⟩

theorem scan_bool (value : Bool) (rest : List Char) : ∃ start,
    scan 0 ((compact (.bool value)).toList ++ rest) =
      ⟨.scalar (.ok (.bool value)), start⟩ :: scan 0 rest := by
  cases value <;> exact ⟨_, rfl⟩

theorem lexeme_of_isNumeral {c : Char} (h : isNumeral c = true) (rest : List Char) :
    lexeme c rest =
      match Literal.read (c :: rest) with
      | .ok reading => (.scalar (reading.number.map .number), reading.length - 1)
      | .error stop => (.broken stop false, 0) := by
  have hstart : c = '-' ∨ c.isDigit := by simpa [isNumeral] using h
  unfold lexeme
  split
  case h_11 => exact if_pos hstart
  all_goals cases h

theorem isSpace_of_isNumeral {c : Char} (h : isNumeral c = true) : isSpace c = false := by
  by_contra hspace
  simp only [isSpace, Bool.not_eq_false, Bool.or_eq_true, decide_eq_true_eq] at hspace
  rcases hspace with ((rfl | rfl) | rfl) | rfl <;> cases h

/-- A written integer is one token. -/
theorem scan_integer {n : Int} (hn : Fits n) (h : Follows rest) : ∃ start,
    scan 0 ((toString n).toList ++ rest) =
      ⟨.scalar (.ok (.number (.integer n))), start⟩ :: scan 0 rest := by
  obtain ⟨c, cs, htext⟩ := List.exists_cons_of_ne_nil (toList_toString_ne_nil n)
  have hc : isNumeral c = true := isNumeral_of_mem_toString (htext ▸ List.mem_cons_self)
  have hread := Literal.read_digits h (n < 0) n.natAbs
  rw [← List.append_assoc, ← toList_toString, htext, List.cons_append] at hread
  have hlexeme : lexeme c (cs ++ rest) = (.scalar (.ok (.number (.integer n))), cs.length) := by
    rw [lexeme_of_isNumeral hc, hread]
    simp only [number_of_fits hn]
    rfl
  rw [htext]
  exact ⟨_, scan_of_lexeme (isSpace_of_isNumeral hc) hlexeme nofun⟩

/-! ## Documents -/

mutual

/-- How many arrays and objects are open at a time in a document. -/
def depth : Json → Nat
  | array items => itemsDepth items + 1
  | object entries => entriesDepth entries + 1
  | _ => 0

/-- How many are open at a time in the items of an array. -/
def itemsDepth : List Json → Nat
  | [] => 0
  | item :: rest => max (depth item) (itemsDepth rest)

/-- How many are open at a time in the values of an object. -/
def entriesDepth : List (String × Json) → Nat
  | [] => 0
  | (_, value) :: rest => max (depth value) (entriesDepth rest)

end

/-- Whether a document is read wherever it may stand: inside any frames that are open, as long as
they are not too many, and in front of anything that may follow it. -/
def IsReadBack (document : Json) : Prop :=
  ∀ stack rest, isSkipped stack = false → document.depth + stack.length ≤ maxDepth →
    Follows rest →
    build .all stack (scan 0 (compactChars document ++ rest)) =
      close .all stack document (scan 0 rest)

section Build

variable {known : KnownKeys} {stack : List Frame} {tokens : List Token} {start : List Char}

theorem build_scalar (hstack : isSkipped stack = false) (value : Json) :
    build known stack (⟨.scalar (.ok value), start⟩ :: tokens) =
      close known stack value tokens := by
  rw [build, hstack]
  rfl

theorem build_string (hstack : isSkipped stack = false) (s : String) :
    build known stack (⟨.string (.ok s), start⟩ :: tokens) =
      close known stack (.string s) tokens := by
  rw [build, hstack]
  rfl

theorem build_openArray (hopen : mayOpen stack = true) :
    build known stack (⟨.openArray, start⟩ :: tokens) = buildItem known stack tokens := by
  rw [build, hopen]
  rfl

theorem build_openObject (hopen : mayOpen stack = true) :
    build known stack (⟨.openObject, start⟩ :: tokens) = buildEntry known stack tokens := by
  rw [build, hopen]
  rfl

theorem mayOpen_of_lt (h : stack.length < maxDepth) : mayOpen stack = true := by
  simp only [mayOpen, Bool.or_eq_true, decide_eq_true_eq]
  exact .inr h

theorem buildItem_closeArray :
    buildItem known stack (⟨.closeArray, start⟩ :: tokens) =
      close known stack (.array []) tokens := by
  rw [buildItem]

theorem buildEntry_closeObject :
    buildEntry known stack (⟨.closeObject, start⟩ :: tokens) =
      close known stack (.object []) tokens := by
  rw [buildEntry]

theorem buildItem_eq_build {token : Token} (h : token.lexeme ≠ .closeArray) :
    buildItem known stack (token :: tokens) =
      build known (.array [] (isSkipped stack) :: stack) (token :: tokens) := by
  rw [buildItem, build]
  cases hlexeme : token.lexeme with
  | closeArray => exact absurd hlexeme h
  | _ => rfl

theorem buildNextItem_eq_build {token : Token} (h : token.lexeme ≠ .closeArray) :
    buildNextItem known stack (token :: tokens) = build known stack (token :: tokens) := by
  rw [buildNextItem, build]
  cases hlexeme : token.lexeme with
  | closeArray => exact absurd hlexeme h
  | _ => rfl

theorem buildEntry_string (hstack : isSkipped stack = false) (key : String) :
    buildEntry known stack (⟨.string (.ok key), start⟩ :: tokens) =
      buildValue known stack [] key tokens := by
  rw [buildEntry, hstack]
  rfl

theorem buildNextEntry_string (hstack : isSkipped stack = false) (entries : List (String × Json))
    (key : String) :
    buildNextEntry known stack entries (⟨.string (.ok key), start⟩ :: tokens) =
      buildValue known stack entries key tokens := by
  rw [buildNextEntry, hstack]
  rfl

theorem buildValue_colon (hstack : isSkipped stack = false) (entries : List (String × Json))
    (key : String) :
    buildValue .all stack entries key (⟨.colon, start⟩ :: tokens) =
      build .all (.object entries key false :: stack) tokens := by
  rw [buildValue, entryFrame, hstack]
  rfl

theorem close_array_comma (items : List Json) (skipped : Bool) (value : Json) :
    close known (.array items skipped :: stack) value (⟨.comma, start⟩ :: tokens) =
      buildNextItem known (.array (value :: items) skipped :: stack) tokens := by
  unfold close
  rfl

theorem close_array_closeArray (items : List Json) (skipped : Bool) (value : Json) :
    close known (.array items skipped :: stack) value (⟨.closeArray, start⟩ :: tokens) =
      close known stack (.array (value :: items).reverse) tokens := by
  conv_lhs => unfold close

theorem close_object_comma (entries : List (String × Json)) (key : String) (skipped : Bool)
    (value : Json) :
    close known (.object entries key skipped :: stack) value (⟨.comma, start⟩ :: tokens) =
      buildNextEntry known stack ((key, value) :: entries) tokens := by
  unfold close
  rfl

theorem close_object_closeObject (entries : List (String × Json)) (key : String) (skipped : Bool)
    (value : Json) :
    close known (.object entries key skipped :: stack) value (⟨.closeObject, start⟩ :: tokens) =
      close known stack (.object ((key, value) :: entries).reverse) tokens := by
  conv_lhs => unfold close

end Build

/-- A document does not start with the end of an array. -/
theorem IsExact.exists_token {document : Json} (h : document.IsExact) (hrest : Follows rest) :
    ∃ token tokens, scan 0 (compactChars document ++ rest) = token :: tokens ∧
      token.lexeme ≠ .closeArray := by
  cases h with
  | null =>
    obtain ⟨start, hscan⟩ := scan_null rest
    exact ⟨_, _, hscan, nofun⟩
  | bool value =>
    obtain ⟨start, hscan⟩ := scan_bool value rest
    exact ⟨_, _, hscan, nofun⟩
  | integer hn =>
    obtain ⟨start, hscan⟩ := scan_integer hn hrest
    exact ⟨_, _, hscan, nofun⟩
  | string s =>
    obtain ⟨start, hscan⟩ := scan_stringText s rest
    exact ⟨_, _, hscan, nofun⟩
  | array =>
    rw [compactChars_array, List.cons_append]
    exact ⟨_, _, rfl, nofun⟩
  | object =>
    rw [compactChars_object, List.cons_append]
    exact ⟨_, _, rfl, nofun⟩

theorem scan_others {α : Type} (text : α → List Char) (bracket : Char) (next : α) (items : List α)
    (rest : List Char) : ∃ start,
    scan 0 (others text bracket (next :: items) rest) =
      ⟨.comma, start⟩ :: scan 0 (text next ++ others text bracket items rest) := by
  have hothers : others text bracket (next :: items) rest =
      ',' :: (text next ++ others text bracket items rest) := by
    simp [others]
  rw [hothers]
  exact ⟨_, rfl⟩

/-! ### Arrays -/

section Arrays

variable {stack : List Frame} {item : Json} {items done : List Json}

/-- After an item of an array, the others are read. -/
theorem close_others (hitems : ∀ item ∈ items, item.IsExact ∧ item.IsReadBack)
    (hdepth : itemsDepth items + 1 + stack.length ≤ maxDepth) (rest : List Char) :
    close .all (.array done false :: stack) item (scan 0 (others compactChars ']' items rest)) =
      close .all stack (.array ((item :: done).reverse ++ items)) (scan 0 rest) := by
  induction items generalizing item done with
  | nil =>
    have hscan : scan 0 (others compactChars ']' [] rest) =
      ⟨.closeArray, ']' :: rest⟩ :: scan 0 rest := rfl
    rw [hscan, close_array_closeArray, List.append_nil]
  | cons next items ih =>
    obtain ⟨⟨hexact, hread⟩, hitems⟩ := List.forall_mem_cons.1 hitems
    rw [itemsDepth] at hdepth
    have hfollows : Follows (others compactChars ']' items rest) :=
      follows_others (.inl rfl) items rest
    obtain ⟨start, hscan⟩ := scan_others compactChars ']' next items rest
    obtain ⟨token, tokens, htokens, htoken⟩ := hexact.exists_token hfollows
    calc
      close .all (.array done false :: stack) item
          (scan 0 (others compactChars ']' (next :: items) rest)) =
          buildNextItem .all (.array (item :: done) false :: stack)
            (scan 0 (compactChars next ++ others compactChars ']' items rest)) := by
        rw [hscan, close_array_comma]
      _ = build .all (.array (item :: done) false :: stack)
            (scan 0 (compactChars next ++ others compactChars ']' items rest)) := by
        rw [htokens, buildNextItem_eq_build htoken]
      _ = close .all (.array (item :: done) false :: stack) next
            (scan 0 (others compactChars ']' items rest)) := by
        apply hread _ _ rfl _ hfollows
        rw [List.length_cons]
        omega
      _ = close .all stack (.array ((next :: item :: done).reverse ++ items)) (scan 0 rest) :=
        ih hitems (by omega)
      _ = close .all stack (.array ((item :: done).reverse ++ next :: items)) (scan 0 rest) := by
        simp

theorem isReadBack_array (hitems : ∀ item ∈ items, item.IsExact ∧ item.IsReadBack) :
    IsReadBack (.array items) := by
  intro stack rest hstack hdepth hrest
  rw [depth] at hdepth
  have hopen : mayOpen stack = true := mayOpen_of_lt (by omega)
  have hchars : compactChars (.array items) ++ rest =
      '[' :: ([','].intercalate (items.map compactChars) ++ ']' :: rest) := by
    rw [compactChars_array, List.cons_append, List.append_assoc]
    rfl
  have hscan (chars : List Char) :
      scan 0 ('[' :: chars) = ⟨.openArray, '[' :: chars⟩ :: scan 0 chars := rfl
  rw [hchars, hscan, build_openArray hopen]
  cases items with
  | nil => exact buildItem_closeArray
  | cons item items =>
    obtain ⟨⟨hexact, hread⟩, hitems⟩ := List.forall_mem_cons.1 hitems
    rw [itemsDepth] at hdepth
    have hfollows : Follows (others compactChars ']' items rest) :=
      follows_others (.inl rfl) items rest
    obtain ⟨token, tokens, htokens, htoken⟩ := hexact.exists_token hfollows
    rw [intercalate_append]
    calc
      buildItem .all stack (scan 0 (compactChars item ++ others compactChars ']' items rest)) =
          build .all (.array [] false :: stack)
            (scan 0 (compactChars item ++ others compactChars ']' items rest)) := by
        rw [htokens, buildItem_eq_build htoken, hstack]
      _ = close .all (.array [] false :: stack) item
            (scan 0 (others compactChars ']' items rest)) := by
        apply hread _ _ rfl _ hfollows
        rw [List.length_cons]
        omega
      _ = close .all stack (.array (item :: items)) (scan 0 rest) :=
        close_others hitems (by omega) rest

end Arrays

/-! ### Objects -/

section Objects

variable {stack : List Frame} {key : String} {value : Json} {entry : String × Json}
  {entries done : List (String × Json)}

/-- An entry of an object starts with its key, and its value is read after the colon. -/
theorem exists_scan_entry (hread : entry.2.IsReadBack) (hstack : isSkipped stack = false)
    (hdepth : entry.2.depth + 1 + stack.length ≤ maxDepth) (hrest : Follows rest)
    (done : List (String × Json)) : ∃ start tokens,
    scan 0 (entryChars entry ++ rest) = ⟨.string (.ok entry.1), start⟩ :: tokens ∧
      buildValue .all stack done entry.1 tokens =
        close .all (.object done entry.1 false :: stack) entry.2 (scan 0 rest) := by
  obtain ⟨start, hscan⟩ := scan_stringText entry.1 (':' :: (compactChars entry.2 ++ rest))
  have hcolon : scan 0 (':' :: (compactChars entry.2 ++ rest)) =
      ⟨.colon, ':' :: (compactChars entry.2 ++ rest)⟩ ::
        scan 0 (compactChars entry.2 ++ rest) := rfl
  refine ⟨start, scan 0 (':' :: (compactChars entry.2 ++ rest)), ?_, ?_⟩
  · rw [entryChars, List.append_assoc, List.cons_append]
    exact hscan
  · rw [hcolon, buildValue_colon hstack]
    apply hread _ _ rfl _ hrest
    rw [List.length_cons]
    omega

/-- After an entry of an object, the others are read. -/
theorem close_other_entries (hentries : ∀ entry ∈ entries, entry.2.IsReadBack)
    (hstack : isSkipped stack = false)
    (hdepth : entriesDepth entries + 1 + stack.length ≤ maxDepth) (rest : List Char) :
    close .all (.object done key false :: stack) value
        (scan 0 (others entryChars '\x7d' entries rest)) =
      close .all stack (.object (((key, value) :: done).reverse ++ entries)) (scan 0 rest) := by
  induction entries generalizing key value done with
  | nil =>
    have hscan : scan 0 (others entryChars '\x7d' [] rest) =
      ⟨.closeObject, '\x7d' :: rest⟩ :: scan 0 rest := rfl
    rw [hscan, close_object_closeObject, List.append_nil]
  | cons next entries ih =>
    obtain ⟨hread, hentries⟩ := List.forall_mem_cons.1 hentries
    rw [entriesDepth] at hdepth
    have hfollows : Follows (others entryChars '\x7d' entries rest) :=
      follows_others (.inr rfl) entries rest
    obtain ⟨start, hscan⟩ := scan_others entryChars '\x7d' next entries rest
    obtain ⟨start', tokens, htokens, hvalue⟩ :=
      exists_scan_entry hread hstack (by omega) hfollows ((key, value) :: done)
    calc
      close .all (.object done key false :: stack) value
          (scan 0 (others entryChars '\x7d' (next :: entries) rest)) =
          buildNextEntry .all stack ((key, value) :: done)
            (scan 0 (entryChars next ++ others entryChars '\x7d' entries rest)) := by
        rw [hscan, close_object_comma]
      _ = close .all (.object ((key, value) :: done) next.1 false :: stack) next.2
            (scan 0 (others entryChars '\x7d' entries rest)) := by
        rw [htokens, buildNextEntry_string hstack, hvalue]
      _ = close .all stack (.object (((next.1, next.2) :: (key, value) :: done).reverse ++ entries))
            (scan 0 rest) := ih hentries (by omega)
      _ = close .all stack (.object (((key, value) :: done).reverse ++ next :: entries))
            (scan 0 rest) := by
        simp

theorem isReadBack_object (hentries : ∀ entry ∈ entries, entry.2.IsReadBack) :
    IsReadBack (.object entries) := by
  intro stack rest hstack hdepth hrest
  rw [depth] at hdepth
  have hopen : mayOpen stack = true := mayOpen_of_lt (by omega)
  have hchars : compactChars (.object entries) ++ rest =
      '\x7b' :: ([','].intercalate (entries.map entryChars) ++ '\x7d' :: rest) := by
    rw [compactChars_object, List.cons_append, List.append_assoc]
    rfl
  have hscan (chars : List Char) :
      scan 0 ('\x7b' :: chars) = ⟨.openObject, '\x7b' :: chars⟩ :: scan 0 chars := rfl
  rw [hchars, hscan, build_openObject hopen]
  cases entries with
  | nil => exact buildEntry_closeObject
  | cons entry entries =>
    obtain ⟨hread, hentries⟩ := List.forall_mem_cons.1 hentries
    rw [entriesDepth] at hdepth
    have hfollows : Follows (others entryChars '\x7d' entries rest) :=
      follows_others (.inr rfl) entries rest
    obtain ⟨start, tokens, htokens, hvalue⟩ :=
      exists_scan_entry hread hstack (by omega) hfollows []
    rw [intercalate_append, htokens, buildEntry_string hstack, hvalue]
    exact close_other_entries hentries hstack (by omega) rest

end Objects

/-! ### All documents -/

theorem IsExact.isReadBack {document : Json} (h : document.IsExact) : document.IsReadBack := by
  induction h with
  | null =>
    intro stack rest hstack _ _
    obtain ⟨start, hscan⟩ := scan_null rest
    have hchars : compactChars .null = "null".toList := rfl
    rw [hchars, hscan, build_scalar hstack]
  | bool value =>
    intro stack rest hstack _ _
    obtain ⟨start, hscan⟩ := scan_bool value rest
    rw [compactChars, hscan, build_scalar hstack]
  | @integer n hn =>
    intro stack rest hstack _ hrest
    obtain ⟨start, hscan⟩ := scan_integer hn hrest
    have hchars : compactChars (.number (.integer n)) = (toString n).toList := rfl
    rw [hchars, hscan, build_scalar hstack]
  | string s =>
    intro stack rest hstack _ _
    obtain ⟨start, hscan⟩ := scan_stringText s rest
    have hchars : compactChars (.string s) = (stringText s).toList := rfl
    rw [hchars, hscan, build_string hstack]
  | array hitems ih => exact isReadBack_array fun item hitem ↦ ⟨hitems item hitem, ih item hitem⟩
  | object _ ih => exact isReadBack_object ih

/-- A document is read back from its compact text. -/
theorem parse_compact {document : Json} (h : document.IsExact)
    (hdepth : document.depth ≤ maxDepth) : parse document.compact = .ok document := by
  have hends : Follows [] := by simp [Follows]
  have hread := h.isReadBack [] [] rfl hdepth hends
  have hbuild : build .all [] (scan 0 document.compact.toList) = .ok document := by
    rw [List.append_nil] at hread
    exact hread
  rw [parse, parseKnown, hbuild]
  rfl

end Reactor.Json

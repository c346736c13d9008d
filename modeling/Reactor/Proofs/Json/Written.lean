import Reactor.Proofs.Json.Numerals
import Reactor.Proofs.Outcome

/-!
# Documents as they are written

A written document keeps each number as the text that stands for it. The tokens of a text that is
accepted are those of exactly one written document, and what is read is, part for part, what is
written. The reader holds what it has read so far in the frames of a stack, so the text after a
value has to complete all of them.
-/

namespace Reactor.Json

/-- A token, with a number as it is written. -/
inductive Symbol where
  | openArray
  | closeArray
  | openObject
  | closeObject
  | comma
  | colon
  | null
  | bool (value : Bool)
  | number (numeral : String)
  | string (text : String)
  /-- What denotes nothing. -/
  | other
  deriving DecidableEq

def Token.symbol (token : Token) : Symbol :=
  match token.lexeme with
  | .openArray => .openArray
  | .closeArray => .closeArray
  | .openObject => .openObject
  | .closeObject => .closeObject
  | .comma => .comma
  | .colon => .colon
  | .string (.ok text) => .string text
  | .scalar (.ok .null) => .null
  | .scalar (.ok (.bool value)) => .bool value
  | .scalar (.ok (.number _)) => .number (numeralAt token.start)
  | _ => .other

theorem Token.symbol_eq {token : Token} {lexeme : Lexeme} (h : token.lexeme = lexeme) :
    token.symbol = Token.symbol ⟨lexeme, token.start⟩ := by
  rw [← h]

def symbolsOf (text : String) : List Symbol :=
  (scan 0 text.toList).map Token.symbol

/-- A document with its numbers as they are written. -/
inductive Written where
  | null
  | bool (value : Bool)
  | number (numeral : String)
  | string (text : String)
  | array (items : List Written)
  | object (entries : List (String × Written))

namespace Written

mutual

def symbols : Written → List Symbol
  | null => [.null]
  | bool value => [.bool value]
  | number numeral => [.number numeral]
  | string text => [.string text]
  | array items => .openArray :: itemSymbols items
  | object entries => .openObject :: entrySymbols entries

def itemSymbols : List Written → List Symbol
  | [] => [.closeArray]
  | item :: rest => symbols item ++ nextItemSymbols rest

def nextItemSymbols : List Written → List Symbol
  | [] => [.closeArray]
  | item :: rest => .comma :: (symbols item ++ nextItemSymbols rest)

def entrySymbols : List (String × Written) → List Symbol
  | [] => [.closeObject]
  | (key, value) :: rest => .string key :: .colon :: (symbols value ++ nextEntrySymbols rest)

/-- The symbols of the entries of an object after others, and its end. -/
def nextEntrySymbols : List (String × Written) → List Symbol
  | [] => [.closeObject]
  | (key, value) :: rest =>
    .comma :: .string key :: .colon :: (symbols value ++ nextEntrySymbols rest)

end

/-- Whether a text is spelled by a written document. -/
def Spells (written : Written) (text : String) : Prop :=
  symbolsOf text = written.symbols

/-! ## No text is spelled by two documents -/

theorem symbols_append_ne (written : Written) (rest rest' : List Symbol) :
    written.symbols ++ rest ≠ .closeArray :: rest' := by
  cases written <;> simp [symbols]

mutual

/-- The symbols of a document tell it from all others, whatever follows. -/
theorem symbols_append_inj : (written other : Written) → ∀ {rest rest' : List Symbol},
    written.symbols ++ rest = other.symbols ++ rest' → written = other ∧ rest = rest'
  | .array items, other => fun h ↦ by
    cases other with
    | array items' =>
      simp only [symbols, List.cons_append, List.cons.injEq, true_and] at h
      obtain ⟨rfl, rfl⟩ := itemSymbols_append_inj items items' h
      exact ⟨rfl, rfl⟩
    | _ => simp [symbols] at h
  | .object entries, other => fun h ↦ by
    cases other with
    | object entries' =>
      simp only [symbols, List.cons_append, List.cons.injEq, true_and] at h
      obtain ⟨rfl, rfl⟩ := entrySymbols_append_inj entries entries' h
      exact ⟨rfl, rfl⟩
    | _ => simp [symbols] at h
  | .null, other => fun h ↦ by
    cases other <;> simp_all [symbols]
  | .bool _, other => fun h ↦ by
    cases other <;> simp_all [symbols]
  | .number _, other => fun h ↦ by
    cases other <;> simp_all [symbols]
  | .string _, other => fun h ↦ by
    cases other <;> simp_all [symbols]

theorem itemSymbols_append_inj : (items items' : List Written) → ∀ {rest rest' : List Symbol},
    itemSymbols items ++ rest = itemSymbols items' ++ rest' → items = items' ∧ rest = rest'
  | [], [] => fun h ↦ by simpa [itemSymbols] using h
  | [], item :: items => fun h ↦ by
    rw [itemSymbols, itemSymbols, List.append_assoc] at h
    exact absurd h.symm (symbols_append_ne item _ _)
  | item :: items, [] => fun h ↦ by
    rw [itemSymbols, itemSymbols, List.append_assoc] at h
    exact absurd h (symbols_append_ne item _ _)
  | item :: items, item' :: items' => fun h ↦ by
    rw [itemSymbols, itemSymbols, List.append_assoc, List.append_assoc] at h
    obtain ⟨rfl, hrest⟩ := symbols_append_inj item item' h
    obtain ⟨rfl, rfl⟩ := nextItemSymbols_append_inj items items' hrest
    exact ⟨rfl, rfl⟩

theorem nextItemSymbols_append_inj : (items items' : List Written) →
    ∀ {rest rest' : List Symbol},
      nextItemSymbols items ++ rest = nextItemSymbols items' ++ rest' →
        items = items' ∧ rest = rest'
  | [], [] => fun h ↦ by simpa [nextItemSymbols] using h
  | [], item :: items => fun h ↦ by simp [nextItemSymbols] at h
  | item :: items, [] => fun h ↦ by simp [nextItemSymbols] at h
  | item :: items, item' :: items' => fun h ↦ by
    simp only [nextItemSymbols, List.cons_append, List.append_assoc, List.cons.injEq,
      true_and] at h
    obtain ⟨rfl, hrest⟩ := symbols_append_inj item item' h
    obtain ⟨rfl, rfl⟩ := nextItemSymbols_append_inj items items' hrest
    exact ⟨rfl, rfl⟩

theorem entrySymbols_append_inj : (entries entries' : List (String × Written)) →
    ∀ {rest rest' : List Symbol},
      entrySymbols entries ++ rest = entrySymbols entries' ++ rest' →
        entries = entries' ∧ rest = rest'
  | [], [] => fun h ↦ by simpa [entrySymbols] using h
  | [], (_, _) :: _ => fun h ↦ by simp [entrySymbols] at h
  | (_, _) :: _, [] => fun h ↦ by simp [entrySymbols] at h
  | (key, value) :: entries, (key', value') :: entries' => fun h ↦ by
    simp only [entrySymbols, List.cons_append, List.append_assoc, List.cons.injEq,
      Symbol.string.injEq, true_and] at h
    obtain ⟨rfl, hvalue⟩ := h
    obtain ⟨rfl, hrest⟩ := symbols_append_inj value value' hvalue
    obtain ⟨rfl, rfl⟩ := nextEntrySymbols_append_inj entries entries' hrest
    exact ⟨rfl, rfl⟩

theorem nextEntrySymbols_append_inj : (entries entries' : List (String × Written)) →
    ∀ {rest rest' : List Symbol},
      nextEntrySymbols entries ++ rest = nextEntrySymbols entries' ++ rest' →
        entries = entries' ∧ rest = rest'
  | [], [] => fun h ↦ by simpa [nextEntrySymbols] using h
  | [], (_, _) :: _ => fun h ↦ by simp [nextEntrySymbols] at h
  | (_, _) :: _, [] => fun h ↦ by simp [nextEntrySymbols] at h
  | (key, value) :: entries, (key', value') :: entries' => fun h ↦ by
    simp only [nextEntrySymbols, List.cons_append, List.append_assoc, List.cons.injEq,
      Symbol.string.injEq, true_and] at h
    obtain ⟨rfl, hvalue⟩ := h
    obtain ⟨rfl, hrest⟩ := symbols_append_inj value value' hvalue
    obtain ⟨rfl, rfl⟩ := nextEntrySymbols_append_inj entries entries' hrest
    exact ⟨rfl, rfl⟩

end

theorem Spells.unique {written other : Written} {text : String} (h : written.Spells text)
    (hother : other.Spells text) : written = other := by
  have hsymbols : written.symbols ++ [] = other.symbols ++ [] := by
    rw [List.append_nil, List.append_nil]
    exact h.symm.trans hother
  exact (symbols_append_inj written other hsymbols).1

/-! ## What is written and what is read -/

/-- Whether a document is what a written document denotes. -/
inductive Denotes : Written → Json → Prop
  | null : Denotes .null .null
  | bool (value : Bool) : Denotes (.bool value) (.bool value)
  | number {numeral : String} {n : Number} (h : NumberOf numeral n) :
    Denotes (.number numeral) (.number n)
  | string (text : String) : Denotes (.string text) (.string text)
  | array {items : List Written} {documents : List Json}
    (h : List.Forall₂ Denotes items documents) : Denotes (.array items) (.array documents)
  | object {entries : List (String × Written)} {fields : List (String × Json)}
    (hkeys : entries.map Prod.fst = fields.map Prod.fst)
    (h : List.Forall₂ (fun entry field ↦ Denotes entry.2 field.2) entries fields) :
    Denotes (.object entries) (.object fields)

/-- The keys of an object are apart from its values in the definition of Denotes, for an inductive
predicate cannot stand below a conjunction within the relation of the entries. -/
theorem denotes_object_iff {entries : List (String × Written)} {fields : List (String × Json)} :
    Denotes (.object entries) (.object fields) ↔
      List.Forall₂ (fun entry field ↦ entry.1 = field.1 ∧ Denotes entry.2 field.2) entries
        fields := by
  constructor
  · rintro ⟨⟩
    rename_i hkeys h
    induction h with
    | nil => exact .nil
    | cons hhead _ ih =>
      obtain ⟨hkey, hkeys⟩ := List.cons.inj hkeys
      exact .cons ⟨hkey, hhead⟩ (ih hkeys)
  · intro h
    exact .object (map_eq_of_forall₂ h fun _ _ hentry ↦ hentry.1)
      (h.imp fun _ _ hentry ↦ hentry.2)

end Written

open Written (Denotes)

/-! ## Tokens of numbers and words -/

/-- Whether a token that denotes a value is that of a written document which denotes this value. -/
def Token.IsFaithful (token : Token) : Prop :=
  ∀ value, token.lexeme = .scalar (.ok value) →
    ∃ written : Written, written.symbols = [token.symbol] ∧ Denotes written value

theorem Quotation.breakOff_ne_scalar (read : Quotation) (stop : Stop) (value : Except Stop Json) :
    read.breakOff stop ≠ .scalar value := by
  cases read <;> exact nofun

theorem quoted_ne_scalar (skip length : Nat) (read : Quotation) (text : List Char)
    (value : Except Stop Json) : (quoted skip length read text).1 ≠ .scalar value := by
  fun_induction quoted skip length read text <;>
    simp_all [Quotation.breakOff_ne_scalar]

theorem word_eq_scalar {value value' : Json} {length : Nat} {expected text : List Char}
    (h : (word value length expected text).1 = .scalar (.ok value')) : value' = value := by
  fun_induction word value length expected text <;> simp_all

theorem denoted_of_lexeme {c : Char} {rest : List Char} {value : Json}
    (h : (lexeme c rest).1 = .scalar (.ok value)) :
    (value = .null ∨ ∃ b, value = .bool b) ∨
      ∃ n, value = .number n ∧ NumberOf (numeralAt (c :: rest)) n := by
  unfold lexeme at h
  split at h
  case h_7 => exact absurd h (quoted_ne_scalar _ _ _ _ _)
  case h_8 => exact .inl (.inr ⟨_, word_eq_scalar h⟩)
  case h_9 => exact .inl (.inr ⟨_, word_eq_scalar h⟩)
  case h_10 => exact .inl (.inl (word_eq_scalar h))
  case h_11 =>
    split at h
    · split at h
      case h_1 reading hread =>
        cases hnumber : reading.number with
        | error stop =>
          rw [hnumber] at h
          cases h
        | ok n =>
          rw [hnumber] at h
          cases h
          exact .inr ⟨n, rfl, numberOf_numeralAt hread hnumber⟩
      case h_2 => cases h
    · cases h
  all_goals cases h

theorem isFaithful_of_lexeme (c : Char) (rest : List Char) :
    Token.IsFaithful ⟨(lexeme c rest).1, c :: rest⟩ := by
  intro value hvalue
  have hlexeme : (lexeme c rest).1 = .scalar (.ok value) := hvalue
  rw [hlexeme]
  rcases denoted_of_lexeme hlexeme with (rfl | ⟨b, rfl⟩) | ⟨n, rfl, hn⟩
  · exact ⟨.null, rfl, .null⟩
  · exact ⟨.bool b, rfl, .bool b⟩
  · exact ⟨.number (numeralAt (c :: rest)), rfl, .number hn⟩

theorem isFaithful_of_mem_scan {skip : Nat} {text : List Char} :
    ∀ token ∈ scan skip text, token.IsFaithful := by
  induction text generalizing skip with
  | nil => exact List.forall_mem_nil _
  | cons c rest ih =>
    cases skip with
    | succ skip => exact ih
    | zero =>
      rw [scan]
      split
      · exact ih
      · have hfaithful := isFaithful_of_lexeme c rest
        cases hlexeme : lexeme c rest with
        | mk kind length =>
          rw [hlexeme] at hfaithful
          cases kind with
          | broken stop isQuoted => exact List.forall_mem_singleton.2 hfaithful
          | _ => exact List.forall_mem_cons.2 ⟨hfaithful, ih⟩

/-! ## Steps of the reader -/

/-- Whether nothing is passed over inside the open frames. -/
inductive IsRead : List Frame → Prop
  | nil : IsRead []
  | array {stack : List Frame} (h : IsRead stack) (items : List Json) :
    IsRead (.array items false :: stack)
  | object {stack : List Frame} (h : IsRead stack) (entries : List (String × Json)) (key : String) :
    IsRead (.object entries key false :: stack)

theorem IsRead.isSkipped_eq {stack : List Frame} (h : IsRead stack) : isSkipped stack = false := by
  cases h <;> rfl

section Steps

variable {stack : List Frame} {token : Token} {tokens : List Token} {entries : List (String × Json)}
  {key : String} {value document : Json}

theorem denoted_bind_eq_ok {α : Type} {dummy : α} {content : Except Stop α}
    {f : α → Except Stop Json} :
    (denoted false dummy content >>= f) = .ok document ↔
      ∃ a, content = .ok a ∧ f a = .ok document := by
  rw [denoted, if_neg (by decide), bind_eq_ok]

/-- A value starts with a scalar, a string or an opening bracket. -/
theorem build_cases (hstack : IsRead stack) (h : build .all stack tokens = .ok document) :
    ∃ token rest, tokens = token :: rest ∧
      ((∃ value, token.lexeme = .scalar (.ok value) ∧ close .all stack value rest = .ok document) ∨
        (∃ text, token.symbol = .string text ∧
          close .all stack (.string text) rest = .ok document) ∨
        (token.symbol = .openArray ∧ buildItem .all stack rest = .ok document) ∨
        (token.symbol = .openObject ∧ buildEntry .all stack rest = .ok document)) := by
  cases tokens with
  | nil => cases h
  | cons token rest =>
    refine ⟨token, rest, rfl, ?_⟩
    rw [build, hstack.isSkipped_eq] at h
    split at h
    case h_1 content hlexeme =>
      obtain ⟨value, rfl, hclose⟩ := denoted_bind_eq_ok.1 h
      exact .inl ⟨value, hlexeme, hclose⟩
    case h_2 content hlexeme =>
      obtain ⟨text, rfl, hclose⟩ := denoted_bind_eq_ok.1 h
      exact .inr (.inl ⟨text, Token.symbol_eq hlexeme, hclose⟩)
    case h_3 hlexeme =>
      split at h
      · exact .inr (.inr (.inl ⟨Token.symbol_eq hlexeme, h⟩))
      · cases h
    case h_4 hlexeme =>
      split at h
      · exact .inr (.inr (.inr ⟨Token.symbol_eq hlexeme, h⟩))
      · cases h
    case h_5 => cases h

/-- An array that was opened ends at once, or its first item follows. -/
theorem buildItem_cases (hstack : IsRead stack) (h : buildItem .all stack tokens = .ok document) :
    (∃ token rest, tokens = token :: rest ∧ token.symbol = .closeArray ∧
        close .all stack (.array []) rest = .ok document) ∨
      build .all (.array [] false :: stack) tokens = .ok document := by
  cases tokens with
  | nil => cases h
  | cons token rest =>
    by_cases hlexeme : token.lexeme = .closeArray
    · rw [buildItem, hlexeme] at h
      exact .inl ⟨token, rest, rfl, Token.symbol_eq hlexeme, h⟩
    · rw [buildItem_eq_build hlexeme, hstack.isSkipped_eq] at h
      exact .inr h

theorem buildNextItem_cases (h : buildNextItem .all stack tokens = .ok document) :
    build .all stack tokens = .ok document := by
  cases tokens with
  | nil => cases h
  | cons token rest =>
    by_cases hlexeme : token.lexeme = .closeArray
    · rw [buildNextItem, hlexeme] at h
      cases h
    · rw [buildNextItem_eq_build hlexeme] at h
      exact h

theorem buildValue_cases (hstack : IsRead stack)
    (h : buildValue .all stack entries key tokens = .ok document) :
    ∃ token rest, tokens = token :: rest ∧ token.symbol = .colon ∧
      build .all (.object entries key false :: stack) rest = .ok document := by
  cases tokens with
  | nil => cases h
  | cons token rest =>
    rw [buildValue, entryFrame, hstack.isSkipped_eq] at h
    split at h
    case h_1 hlexeme => exact ⟨token, rest, rfl, Token.symbol_eq hlexeme, h⟩
    case h_2 => cases h

/-- A key is followed by a colon and a value. -/
theorem buildNextEntry_cases (hstack : IsRead stack)
    (h : buildNextEntry .all stack entries tokens = .ok document) :
    ∃ first second key rest, tokens = first :: second :: rest ∧
      first.symbol = .string key ∧ second.symbol = .colon ∧
        build .all (.object entries key false :: stack) rest = .ok document := by
  cases tokens with
  | nil => cases h
  | cons token rest =>
    rw [buildNextEntry, hstack.isSkipped_eq] at h
    split at h
    case h_1 => cases h
    case h_2 content hlexeme =>
      obtain ⟨key, rfl, hvalue⟩ := denoted_bind_eq_ok.1 h
      obtain ⟨colon, rest, rfl, hcolon, hbuild⟩ := buildValue_cases hstack hvalue
      exact ⟨token, colon, key, rest, rfl, Token.symbol_eq hlexeme, hcolon, hbuild⟩
    case h_3 => cases h

/-- An object that was opened ends at once, or its first entry follows. -/
theorem buildEntry_cases (h : buildEntry .all stack tokens = .ok document) :
    (∃ token rest, tokens = token :: rest ∧ token.symbol = .closeObject ∧
        close .all stack (.object []) rest = .ok document) ∨
      buildNextEntry .all stack [] tokens = .ok document := by
  cases tokens with
  | nil => cases h
  | cons token rest =>
    rw [buildEntry] at h
    split at h
    case h_1 hlexeme => exact .inl ⟨token, rest, rfl, Token.symbol_eq hlexeme, h⟩
    case h_2 content hlexeme =>
      right
      rw [buildNextEntry, hlexeme]
      exact h
    case h_3 => cases h

theorem close_nil_cases (h : close .all [] value tokens = .ok document) :
    tokens = [] ∧ document = value := by
  cases tokens with
  | nil => exact ⟨rfl, (Except.ok.inj h).symm⟩
  | cons token rest => cases h

/-- After an item of an array, there is a comma and another item, or the array ends. -/
theorem close_array_cases {done : List Json} {skipped : Bool}
    (h : close .all (.array done skipped :: stack) value tokens = .ok document) :
    ∃ token rest, tokens = token :: rest ∧
      ((token.symbol = .comma ∧
          buildNextItem .all (.array (value :: done) skipped :: stack) rest = .ok document) ∨
        (token.symbol = .closeArray ∧
          close .all stack (.array (value :: done).reverse) rest = .ok document)) := by
  cases tokens with
  | nil => cases h
  | cons token rest =>
    refine ⟨token, rest, rfl, ?_⟩
    unfold close at h
    cases hlexeme : token.lexeme <;> rw [hlexeme] at h
    case comma => exact .inl ⟨Token.symbol_eq hlexeme, h⟩
    case closeArray => exact .inr ⟨Token.symbol_eq hlexeme, h⟩
    all_goals cases h

/-- After an entry of an object, there is a comma and another entry, or the object ends. -/
theorem close_object_cases {done : List (String × Json)} {skipped : Bool}
    (h : close .all (.object done key skipped :: stack) value tokens = .ok document) :
    ∃ token rest, tokens = token :: rest ∧
      ((token.symbol = .comma ∧
          buildNextEntry .all stack ((key, value) :: done) rest = .ok document) ∨
        (token.symbol = .closeObject ∧
          close .all stack (.object ((key, value) :: done).reverse) rest = .ok document)) := by
  cases tokens with
  | nil => cases h
  | cons token rest =>
    refine ⟨token, rest, rfl, ?_⟩
    unfold close at h
    cases hlexeme : token.lexeme <;> rw [hlexeme] at h
    case comma => exact .inl ⟨Token.symbol_eq hlexeme, h⟩
    case closeObject => exact .inr ⟨Token.symbol_eq hlexeme, h⟩
    all_goals cases h

end Steps

/-! ## What completes the open frames -/

/-- Whether symbols after a value complete the open frames around it, and what document this is. -/
def Completes : List Frame → Json → List Symbol → Json → Prop
  | [], value, symbols, document => symbols = [] ∧ document = value
  | .array done _ :: stack, value, symbols, document =>
    ∃ items values rest, symbols = Written.nextItemSymbols items ++ rest ∧
      List.Forall₂ Denotes items values ∧
        Completes stack (.array ((value :: done).reverse ++ values)) rest document
  | .object done key _ :: stack, value, symbols, document =>
    ∃ entries fields rest, symbols = Written.nextEntrySymbols entries ++ rest ∧
      List.Forall₂ (fun entry field ↦ entry.1 = field.1 ∧ Denotes entry.2 field.2) entries fields ∧
        Completes stack (.object (((key, value) :: done).reverse ++ fields)) rest document

/-- Whether symbols are those of a value and of what completes the open frames around it. -/
def StartsValue (stack : List Frame) (symbols : List Symbol) (document : Json) : Prop :=
  ∃ (written : Written) (value : Json) (rest : List Symbol), symbols = written.symbols ++ rest ∧
    Denotes written value ∧ Completes stack value rest document

section Completes

variable {stack : List Frame} {skipped : Bool} {written : Written} {key : String}
  {value next document : Json} {symbols : List Symbol}

theorem Completes.nextItem {done : List Json}
    (h : StartsValue (.array (value :: done) skipped :: stack) symbols document) :
    Completes (.array done skipped :: stack) value (.comma :: symbols) document := by
  obtain ⟨written, next, _, rfl, hwritten, items, values, rest, rfl, hitems, hrest⟩ := h
  refine ⟨written :: items, next :: values, rest, ?_, .cons hwritten hitems, ?_⟩
  · simp [Written.nextItemSymbols]
  · simpa using hrest

theorem Completes.closeArray {done : List Json}
    (h : Completes stack (.array (value :: done).reverse) symbols document) :
    Completes (.array done skipped :: stack) value (.closeArray :: symbols) document := by
  refine ⟨[], [], symbols, rfl, .nil, ?_⟩
  rw [List.append_nil]
  exact h

theorem Completes.nextEntry {done : List (String × Json)} {name : String}
    (h : StartsValue (.object ((key, value) :: done) name skipped :: stack) symbols document) :
    Completes (.object done key skipped :: stack) value
      (.comma :: .string name :: .colon :: symbols) document := by
  obtain ⟨written, next, _, rfl, hwritten, entries, fields, rest, rfl, hentries, hrest⟩ := h
  refine ⟨(name, written) :: entries, (name, next) :: fields, rest, ?_,
    .cons ⟨rfl, hwritten⟩ hentries, ?_⟩
  · simp [Written.nextEntrySymbols]
  · simpa using hrest

theorem Completes.closeObject {done : List (String × Json)}
    (h : Completes stack (.object ((key, value) :: done).reverse) symbols document) :
    Completes (.object done key skipped :: stack) value (.closeObject :: symbols) document := by
  refine ⟨[], [], symbols, rfl, .nil, ?_⟩
  rw [List.append_nil]
  exact h

theorem StartsValue.array (h : StartsValue (.array [] skipped :: stack) symbols document) :
    StartsValue stack (.openArray :: symbols) document := by
  obtain ⟨written, next, _, rfl, hwritten, items, values, rest, rfl, hitems, hrest⟩ := h
  refine ⟨.array (written :: items), .array (next :: values), rest, ?_,
    .array (.cons hwritten hitems), hrest⟩
  simp [Written.symbols, Written.itemSymbols]

theorem StartsValue.emptyArray (h : Completes stack (.array []) symbols document) :
    StartsValue stack (.openArray :: .closeArray :: symbols) document :=
  ⟨.array [], .array [], symbols, rfl, .array .nil, h⟩

theorem StartsValue.object (h : StartsValue (.object [] key skipped :: stack) symbols document) :
    StartsValue stack (.openObject :: .string key :: .colon :: symbols) document := by
  obtain ⟨written, next, _, rfl, hwritten, entries, fields, rest, rfl, hentries, hrest⟩ := h
  refine ⟨.object ((key, written) :: entries), .object ((key, next) :: fields), rest, ?_,
    Written.denotes_object_iff.2 (.cons ⟨rfl, hwritten⟩ hentries), hrest⟩
  simp [Written.symbols, Written.entrySymbols]

theorem StartsValue.emptyObject (h : Completes stack (.object []) symbols document) :
    StartsValue stack (.openObject :: .closeObject :: symbols) document :=
  ⟨.object [], .object [], symbols, rfl, Written.denotes_object_iff.2 .nil, h⟩

end Completes

mutual

/-- Where a value is read, its symbols are followed by those that complete the open frames. -/
theorem startsValue_of_build (tokens : List Token) {stack : List Frame} {document : Json}
    (hstack : IsRead stack) (hfaithful : ∀ token ∈ tokens, token.IsFaithful)
    (h : build .all stack tokens = .ok document) :
    StartsValue stack (tokens.map Token.symbol) document := by
  obtain ⟨token, rest, rfl, hcases⟩ := build_cases hstack h
  -- A scalar or a string leaves the rest to the frames; a bracket opens a frame or a value without
  -- parts. Each call is on fewer tokens.
  obtain ⟨htoken, hrest⟩ := List.forall_mem_cons.1 hfaithful
  rw [List.map_cons]
  rcases hcases with ⟨value, hlexeme, hclose⟩ | ⟨text, hsymbol, hclose⟩ | ⟨hsymbol, hbuild⟩ |
    ⟨hsymbol, hbuild⟩
  · obtain ⟨written, hsymbol, hdenotes⟩ := htoken value hlexeme
    refine ⟨written, value, rest.map Token.symbol, ?_, hdenotes,
      completes_of_close rest hstack hrest hclose⟩
    rw [hsymbol, List.singleton_append]
  · refine ⟨.string text, .string text, rest.map Token.symbol, ?_, .string text,
      completes_of_close rest hstack hrest hclose⟩
    rw [hsymbol, Written.symbols, List.singleton_append]
  · rw [hsymbol]
    rcases buildItem_cases hstack hbuild with ⟨last, rest, rfl, hlast, hclose⟩ | hbuild
    · rw [List.map_cons, hlast]
      exact .emptyArray (completes_of_close rest hstack (List.forall_mem_cons.1 hrest).2 hclose)
    · exact .array (startsValue_of_build rest (.array hstack []) hrest hbuild)
  · rw [hsymbol]
    rcases buildEntry_cases hbuild with ⟨last, rest, rfl, hlast, hclose⟩ | hbuild
    · rw [List.map_cons, hlast]
      exact .emptyObject (completes_of_close rest hstack (List.forall_mem_cons.1 hrest).2 hclose)
    · obtain ⟨first, second, key, rest, rfl, hkey, hcolon, hbuild⟩ :=
        buildNextEntry_cases hstack hbuild
      rw [List.map_cons, List.map_cons, hkey, hcolon]
      have hvalue := (List.forall_mem_cons.1 (List.forall_mem_cons.1 hrest).2).2
      exact .object (startsValue_of_build rest (.object hstack [] key) hvalue hbuild)
termination_by tokens.length

/-- Where a value was read, what follows completes the open frames around it. -/
theorem completes_of_close (tokens : List Token) {stack : List Frame} {value document : Json}
    (hstack : IsRead stack) (hfaithful : ∀ token ∈ tokens, token.IsFaithful)
    (h : close .all stack value tokens = .ok document) :
    Completes stack value (tokens.map Token.symbol) document := by
  cases hstack with
  | nil =>
    obtain ⟨rfl, rfl⟩ := close_nil_cases h
    exact ⟨rfl, rfl⟩
  | array hstack done =>
    obtain ⟨token, rest, rfl, hcases⟩ := close_array_cases h
    have hrest := (List.forall_mem_cons.1 hfaithful).2
    rw [List.map_cons]
    rcases hcases with ⟨hsymbol, hbuild⟩ | ⟨hsymbol, hclose⟩
    · rw [hsymbol]
      exact .nextItem (startsValue_of_build rest (.array hstack (value :: done)) hrest
        (buildNextItem_cases hbuild))
    · rw [hsymbol]
      exact .closeArray (completes_of_close rest hstack hrest hclose)
  | object hstack done key =>
    obtain ⟨token, rest, rfl, hcases⟩ := close_object_cases h
    have hrest := (List.forall_mem_cons.1 hfaithful).2
    rw [List.map_cons]
    rcases hcases with ⟨hsymbol, hbuild⟩ | ⟨hsymbol, hclose⟩
    · obtain ⟨first, second, name, rest, rfl, hkey, hcolon, hbuild⟩ :=
        buildNextEntry_cases hstack hbuild
      rw [hsymbol, List.map_cons, List.map_cons, hkey, hcolon]
      have hvalue := (List.forall_mem_cons.1 (List.forall_mem_cons.1 hrest).2).2
      exact .nextEntry (startsValue_of_build rest (.object hstack ((key, value) :: done) name)
        hvalue hbuild)
    · rw [hsymbol]
      exact .closeObject (completes_of_close rest hstack hrest hclose)
termination_by tokens.length

end

/-- A text that is accepted is spelled by a written document that denotes what is read. -/
theorem exists_written_of_parse {text : String} {document : Json}
    (h : parse text = .ok document) :
    ∃ written : Written, written.Spells text ∧ Denotes written document := by
  have hbuild : build .all [] (scan 0 text.toList) = .ok document := mapError_eq_ok.1 h
  obtain ⟨written, value, rest, hsymbols, hdenotes, rfl, rfl⟩ :=
    startsValue_of_build _ .nil isFaithful_of_mem_scan hbuild
  rw [List.append_nil] at hsymbols
  exact ⟨written, hsymbols, hdenotes⟩

end Reactor.Json

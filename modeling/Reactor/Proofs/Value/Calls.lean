import Reactor.Proofs.Value.Strings

/-!
# Calls on the strings of a value

Mapping a function over a value is mapping it over the list of the strings of the value, whatever
effects the function has: it is called on each string once and in order, the first failure ends the
run, and the results take the places of the strings.
-/

namespace Reactor.Value

mutual

def withStrings : Value → List String → Value
  | string _, texts => string (texts.headD "")
  | sequence items, texts => sequence (itemsWithStrings items texts)
  | mapping entries, texts => mapping (entriesWithStrings entries texts)
  | bool value, _ => bool value
  | integer n, _ => integer n
  | float x, _ => float x

def itemsWithStrings : List Value → List String → List Value
  | [], _ => []
  | item :: rest, texts =>
    withStrings item (texts.take item.strings.length) ::
      itemsWithStrings rest (texts.drop item.strings.length)

/-- The entries of a mapping with the given strings in place of those in their values. -/
def entriesWithStrings : List (String × Value) → List String → List (String × Value)
  | [], _ => []
  | (key, value) :: rest, texts =>
    (key, withStrings value (texts.take value.strings.length)) ::
      entriesWithStrings rest (texts.drop value.strings.length)

end

/-! ## Values with other strings -/

mutual

/-- Only the strings of a value are replaced. -/
theorem shape_withStrings : (value : Value) → ∀ texts : List String,
    (value.withStrings texts).shape = value.shape
  | .string _ => fun _ ↦ rfl
  | .sequence items => fun texts ↦ by
    rw [withStrings, shape, shape, shapeOfItems_itemsWithStrings items]
  | .mapping entries => fun texts ↦ by
    rw [withStrings, shape, shape, shapeOfEntries_entriesWithStrings entries]
  | .bool _ => fun _ ↦ rfl
  | .integer _ => fun _ ↦ rfl
  | .float _ => fun _ ↦ rfl

theorem shapeOfItems_itemsWithStrings : (items : List Value) → ∀ texts : List String,
    shapeOfItems (itemsWithStrings items texts) = shapeOfItems items
  | [] => fun _ ↦ rfl
  | item :: rest => fun texts ↦ by
    rw [itemsWithStrings, shapeOfItems, shapeOfItems, shape_withStrings item,
      shapeOfItems_itemsWithStrings rest]

theorem shapeOfEntries_entriesWithStrings : (entries : List (String × Value)) →
    ∀ texts : List String,
      shapeOfEntries (entriesWithStrings entries texts) = shapeOfEntries entries
  | [] => fun _ ↦ rfl
  | (key, value) :: rest => fun texts ↦ by
    rw [entriesWithStrings, shapeOfEntries, shapeOfEntries, shape_withStrings value,
      shapeOfEntries_entriesWithStrings rest]

end

mutual

/-- The strings that were put into a value are its strings then. -/
theorem strings_withStrings : (value : Value) → ∀ texts : List String,
    texts.length = value.strings.length → (value.withStrings texts).strings = texts
  | .string _ => fun texts hlength ↦ by
    obtain ⟨text, rfl⟩ := List.length_eq_one_iff.1 hlength
    rfl
  | .sequence items => fun texts hlength ↦ by
    rw [withStrings, strings]
    exact stringsOfItems_itemsWithStrings items texts hlength
  | .mapping entries => fun texts hlength ↦ by
    rw [withStrings, strings]
    exact stringsOfEntries_entriesWithStrings entries texts hlength
  | .bool _ => fun _ hlength ↦ (List.length_eq_zero_iff.1 hlength).symm
  | .integer _ => fun _ hlength ↦ (List.length_eq_zero_iff.1 hlength).symm
  | .float _ => fun _ hlength ↦ (List.length_eq_zero_iff.1 hlength).symm

theorem stringsOfItems_itemsWithStrings : (items : List Value) → ∀ texts : List String,
    texts.length = (stringsOfItems items).length →
      stringsOfItems (itemsWithStrings items texts) = texts
  | [] => fun _ hlength ↦ (List.length_eq_zero_iff.1 hlength).symm
  | item :: rest => fun texts hlength ↦ by
    rw [stringsOfItems, List.length_append] at hlength
    have hfirst : (texts.take item.strings.length).length = item.strings.length := by
      rw [List.length_take]
      omega
    have hothers : (texts.drop item.strings.length).length = (stringsOfItems rest).length := by
      rw [List.length_drop]
      omega
    rw [itemsWithStrings, stringsOfItems, strings_withStrings item _ hfirst,
      stringsOfItems_itemsWithStrings rest _ hothers, List.take_append_drop]

theorem stringsOfEntries_entriesWithStrings : (entries : List (String × Value)) →
    ∀ texts : List String, texts.length = (stringsOfEntries entries).length →
      stringsOfEntries (entriesWithStrings entries texts) = texts
  | [] => fun _ hlength ↦ (List.length_eq_zero_iff.1 hlength).symm
  | (_, value) :: rest => fun texts hlength ↦ by
    rw [stringsOfEntries, List.length_append] at hlength
    have hfirst : (texts.take value.strings.length).length = value.strings.length := by
      rw [List.length_take]
      omega
    have hothers : (texts.drop value.strings.length).length = (stringsOfEntries rest).length := by
      rw [List.length_drop]
      omega
    rw [entriesWithStrings, stringsOfEntries, strings_withStrings value _ hfirst,
      stringsOfEntries_entriesWithStrings rest _ hothers, List.take_append_drop]

end

mutual

/-- Values of one shape have equally many strings. -/
theorem length_strings_shape : (value : Value) →
    value.shape.strings.length = value.strings.length
  | .string _ => rfl
  | .sequence items => by
    rw [shape, strings, strings]
    exact length_stringsOfItems_shapeOfItems items
  | .mapping entries => by
    rw [shape, strings, strings]
    exact length_stringsOfEntries_shapeOfEntries entries
  | .bool _ => rfl
  | .integer _ => rfl
  | .float _ => rfl

theorem length_stringsOfItems_shapeOfItems : (items : List Value) →
    (stringsOfItems (shapeOfItems items)).length = (stringsOfItems items).length
  | [] => rfl
  | item :: rest => by
    rw [shapeOfItems, stringsOfItems, stringsOfItems, List.length_append, List.length_append,
      length_strings_shape item, length_stringsOfItems_shapeOfItems rest]

theorem length_stringsOfEntries_shapeOfEntries : (entries : List (String × Value)) →
    (stringsOfEntries (shapeOfEntries entries)).length = (stringsOfEntries entries).length
  | [] => rfl
  | (_, value) :: rest => by
    rw [shapeOfEntries, stringsOfEntries, stringsOfEntries, List.length_append,
      List.length_append, length_strings_shape value, length_stringsOfEntries_shapeOfEntries rest]

end

theorem length_strings_of_shape_eq {value result : Value} (h : result.shape = value.shape) :
    result.strings.length = value.strings.length := by
  rw [← length_strings_shape, h, length_strings_shape]

mutual

/-- The shape of a value and its strings determine the value. -/
theorem withStrings_strings : (value : Value) → ∀ result : Value, result.shape = value.shape →
    value.withStrings result.strings = result
  | .sequence items => fun result h ↦ by
    cases result with
    | sequence items' =>
      rw [shape, shape, sequence.injEq] at h
      rw [withStrings, strings, itemsWithStrings_stringsOfItems items _ h]
    | _ => simp [shape] at h
  | .mapping entries => fun result h ↦ by
    cases result with
    | mapping entries' =>
      rw [shape, shape, mapping.injEq] at h
      rw [withStrings, strings, entriesWithStrings_stringsOfEntries entries _ h]
    | _ => simp [shape] at h
  | .string _ => fun result h ↦ by cases result <;> simp_all [shape, strings, withStrings]
  | .bool _ => fun result h ↦ by cases result <;> simp_all [shape, withStrings]
  | .integer _ => fun result h ↦ by cases result <;> simp_all [shape, withStrings]
  | .float _ => fun result h ↦ by cases result <;> simp_all [shape, withStrings]

theorem itemsWithStrings_stringsOfItems : (items : List Value) → ∀ results : List Value,
    shapeOfItems results = shapeOfItems items →
      itemsWithStrings items (stringsOfItems results) = results
  | [] => fun results h ↦ by
    cases results with
    | nil => rfl
    | cons result others => simp [shapeOfItems] at h
  | item :: rest => fun results h ↦ by
    cases results with
    | nil => simp [shapeOfItems] at h
    | cons result others =>
      rw [shapeOfItems, shapeOfItems, List.cons.injEq] at h
      rw [stringsOfItems, itemsWithStrings, List.take_left' (length_strings_of_shape_eq h.1),
        List.drop_left' (length_strings_of_shape_eq h.1), withStrings_strings item _ h.1,
        itemsWithStrings_stringsOfItems rest _ h.2]

theorem entriesWithStrings_stringsOfEntries : (entries : List (String × Value)) →
    ∀ results : List (String × Value), shapeOfEntries results = shapeOfEntries entries →
      entriesWithStrings entries (stringsOfEntries results) = results
  | [] => fun results h ↦ by
    cases results with
    | nil => rfl
    | cons result others => simp [shapeOfEntries] at h
  | (key, value) :: rest => fun results h ↦ by
    cases results with
    | nil => simp [shapeOfEntries] at h
    | cons result others =>
      obtain ⟨key', result⟩ := result
      rw [shapeOfEntries, shapeOfEntries, List.cons.injEq, Prod.mk.injEq] at h
      obtain ⟨⟨rfl, hvalue⟩, hrest⟩ := h
      rw [stringsOfEntries, entriesWithStrings, List.take_left' (length_strings_of_shape_eq hvalue),
        List.drop_left' (length_strings_of_shape_eq hvalue), withStrings_strings value _ hvalue,
        entriesWithStrings_stringsOfEntries rest _ hrest]

end

/-! ## Any effects -/

section Monad

variable {m : Type → Type} [Monad m] [LawfulMonad m]

/-- What comes after mapping over a list may rely on there being as many results as items. -/
theorem mapM_bind_congr {α β γ : Type} {f : α → m β} {items : List α} {g g' : List β → m γ}
    (h : ∀ results, results.length = items.length → g results = g' results) :
    items.mapM f >>= g = items.mapM f >>= g' := by
  induction items generalizing g g' with
  | nil =>
    rw [List.mapM_nil, pure_bind, pure_bind]
    exact h [] rfl
  | cons item rest ih =>
    simp only [List.mapM_cons, bind_assoc, pure_bind]
    refine bind_congr fun result ↦ ih fun results hlength ↦ ?_
    exact h (result :: results) (by simp [hlength])

/-- Mapping over two lists one after the other is mapping over the appended list. -/
theorem mapM_append_split {α β γ : Type} (f : String → m String) (texts texts' : List String)
    (first : List String → α) (second : List String → β) (join : α → β → γ) :
    (do
      let a ← first <$> texts.mapM f
      let b ← second <$> texts'.mapM f
      pure (join a b)) =
      (fun results ↦
        join (first (results.take texts.length)) (second (results.drop texts.length))) <$>
          (texts ++ texts').mapM f := by
  simp only [List.mapM_append, map_eq_pure_bind, bind_assoc, pure_bind]
  refine mapM_bind_congr fun results hlength ↦ bind_congr fun results' ↦ ?_
  rw [List.take_left' hlength, List.drop_left' hlength]

variable {f : String → m String}

mutual

/-- Mapping over a value is mapping over the list of its strings. -/
theorem mapStringsM_eq_map_mapM : (value : Value) →
    value.mapStringsM f = value.withStrings <$> value.strings.mapM f
  | .string text => by
    simp [mapStringsM, strings, withStrings]
  | .sequence items => by
    rw [mapStringsM, mapItemsM_eq_map_mapM items, strings, Functor.map_map]
    simp only [withStrings]
  | .mapping entries => by
    rw [mapStringsM, mapEntriesM_eq_map_mapM entries, strings, Functor.map_map]
    simp only [withStrings]
  | .bool _ => by simp [mapStringsM, strings, withStrings]
  | .integer _ => by simp [mapStringsM, strings, withStrings]
  | .float _ => by simp [mapStringsM, strings, withStrings]

theorem mapItemsM_eq_map_mapM : (items : List Value) →
    mapItemsM f items = itemsWithStrings items <$> (stringsOfItems items).mapM f
  | [] => by simp [mapItemsM, stringsOfItems, itemsWithStrings]
  | item :: rest => by
    rw [mapItemsM, mapStringsM_eq_map_mapM item, mapItemsM_eq_map_mapM rest, stringsOfItems]
    simp only [itemsWithStrings]
    exact mapM_append_split f _ _ _ _ List.cons

theorem mapEntriesM_eq_map_mapM : (entries : List (String × Value)) →
    mapEntriesM f entries = entriesWithStrings entries <$> (stringsOfEntries entries).mapM f
  | [] => by simp [mapEntriesM, stringsOfEntries, entriesWithStrings]
  | (key, value) :: rest => by
    rw [mapEntriesM, mapStringsM_eq_map_mapM value, mapEntriesM_eq_map_mapM rest, stringsOfEntries]
    simp only [entriesWithStrings]
    exact mapM_append_split f _ _ _ _ fun value rest ↦ (key, value) :: rest

end

end Monad

/-! ## Calls with a state -/

section Calls

variable {σ ε : Type} {f : String → ExceptT ε (StateM σ) String} {state next final : σ}
  {texts results : List String} {failure : ε}

/-- A row of calls that all succeed, each from the state that the one before has left. -/
inductive Calls (f : String → ExceptT ε (StateM σ) String) :
    σ → List String → List String → σ → Prop
  | nil (state : σ) : Calls f state [] [] state
  | cons {state next final : σ} {text result : String} {texts results : List String}
    (hcall : (f text).run.run state = (.ok result, next))
    (hrest : Calls f next texts results final) :
    Calls f state (text :: texts) (result :: results) final

/-- A row of calls that all succeed up to the last one, which fails. -/
def CallsUntil (f : String → ExceptT ε (StateM σ) String) (state : σ) (texts : List String)
    (failure : ε) (final : σ) : Prop :=
  ∃ before text after results between, texts = before ++ text :: after ∧
    Calls f state before results between ∧ (f text).run.run between = (.error failure, final)

/-- What runs after a step depends on how the step ends. -/
theorem run_bind {α β : Type} (x : ExceptT ε (StateM σ) α) (k : α → ExceptT ε (StateM σ) β)
    (state : σ) : (x >>= k).run.run state =
      match x.run.run state with
      | (.ok a, next) => (k a).run.run next
      | (.error failure, final) => (.error failure, final) := by
  simp only [ExceptT.run_bind, StateT.run_bind]
  rcases x.run.run state with ⟨_ | _, _⟩ <;> rfl

theorem Calls.length_eq (h : Calls f state texts results final) :
    results.length = texts.length := by
  induction h with
  | nil => rfl
  | cons _ _ ih => rw [List.length_cons, List.length_cons, ih]

theorem run_map {α β : Type} (x : ExceptT ε (StateM σ) α) (g : α → β) (state : σ) :
    (g <$> x).run.run state = ((x.run.run state).1.map g, (x.run.run state).2) := by
  rw [map_eq_pure_bind, run_bind]
  rcases x.run.run state with ⟨_ | _, _⟩ <;> rfl

theorem run_mapM_eq_ok_iff :
    (texts.mapM f).run.run state = (.ok results, final) ↔ Calls f state texts results final := by
  induction texts generalizing state results with
  | nil =>
    constructor
    · rintro ⟨⟩
      exact .nil _
    · rintro ⟨⟩
      rfl
  | cons text rest ih =>
    rw [List.mapM_cons, run_bind]
    constructor
    · intro h
      split at h
      case h_1 result next hcall =>
        rw [run_bind] at h
        split at h
        case h_1 others last hrest =>
          cases h
          exact .cons hcall (ih.1 hrest)
        case h_2 => cases h
      case h_2 => cases h
    · intro h
      cases h with
      | cons hcall hrest =>
        simp only [hcall, run_bind, ih.2 hrest]
        rfl

theorem run_mapM_eq_error_iff : (texts.mapM f).run.run state = (.error failure, final) ↔
    CallsUntil f state texts failure final := by
  induction texts generalizing state with
  | nil =>
    constructor
    · rintro ⟨⟩
    · rintro ⟨before, text, after, results, between, hsplit, -⟩
      simp at hsplit
  | cons text rest ih =>
    rw [List.mapM_cons, run_bind]
    constructor
    · intro h
      split at h
      case h_1 result next hcall =>
        rw [run_bind] at h
        split at h
        case h_1 => cases h
        case h_2 failure last hrest =>
          cases h
          obtain ⟨before, text', after, results, between, rfl, hcalls, hfailed⟩ := ih.1 hrest
          exact ⟨text :: before, text', after, result :: results, between, rfl,
            .cons hcall hcalls, hfailed⟩
      case h_2 failure last hfailed =>
        cases h
        exact ⟨[], text, rest, [], state, rfl, .nil state, hfailed⟩
    · rintro ⟨before, text', after, results, between, hsplit, hcalls, hfailed⟩
      cases hcalls with
      | nil =>
        obtain ⟨rfl, rfl⟩ := List.cons.inj hsplit
        simp only [hfailed]
      | cons hcall hcalls =>
        obtain ⟨rfl, rfl⟩ := List.cons.inj hsplit
        have hrest := ih.2 ⟨_, text', after, _, between, rfl, hcalls, hfailed⟩
        simp only [hcall, run_bind, hrest]

theorem run_mapStringsM_eq_ok_iff {value result : Value} :
    (value.mapStringsM f).run.run state = (.ok result, final) ↔
      result.shape = value.shape ∧ Calls f state value.strings result.strings final := by
  rw [mapStringsM_eq_map_mapM, run_map]
  constructor
  · intro h
    rw [Prod.mk.injEq] at h
    obtain ⟨results, hresults, rfl⟩ := map_eq_ok.1 h.1
    have hcalls := run_mapM_eq_ok_iff.1 (Prod.ext hresults h.2)
    refine ⟨shape_withStrings value results, ?_⟩
    rw [strings_withStrings value results hcalls.length_eq]
    exact hcalls
  · rintro ⟨hshape, hcalls⟩
    rw [run_mapM_eq_ok_iff.2 hcalls]
    exact Prod.ext (congrArg Except.ok (withStrings_strings value result hshape)) rfl

theorem run_mapStringsM_eq_error_iff {value : Value} :
    (value.mapStringsM f).run.run state = (.error failure, final) ↔
      CallsUntil f state value.strings failure final := by
  rw [mapStringsM_eq_map_mapM, run_map, ← run_mapM_eq_error_iff, Prod.mk.injEq, Prod.ext_iff]
  exact and_congr_left' map_eq_error

/-- Calls that return what they are given. -/
theorem exists_calls_self (h : ∀ text ∈ texts, ∀ state, ((f text).run.run state).1 = .ok text)
    (state : σ) : ∃ final, Calls f state texts texts final := by
  induction texts generalizing state with
  | nil => exact ⟨state, .nil state⟩
  | cons text rest ih =>
    have hrest := fun other hother ↦ h other (List.mem_cons_of_mem _ hother)
    obtain ⟨final, hcalls⟩ := ih hrest ((f text).run.run state).2
    exact ⟨final, .cons (Prod.ext (h text List.mem_cons_self state) rfl) hcalls⟩

/-! ## Functions without a state -/

variable {g g' : String → Except ε String} {value result : Value}

theorem mapStringsM_eq_ok_iff : value.mapStringsM g = .ok result ↔
    result.shape = value.shape ∧
      List.Forall₂ (fun text text' ↦ g text = .ok text') value.strings result.strings := by
  rw [mapStringsM_eq_map_mapM, map_eq_ok]
  simp only [mapM_eq_ok]
  constructor
  · rintro ⟨results, hresults, rfl⟩
    refine ⟨shape_withStrings value results, ?_⟩
    rw [strings_withStrings value results hresults.length_eq.symm]
    exact hresults
  · rintro ⟨hshape, hresults⟩
    exact ⟨result.strings, hresults, withStrings_strings value result hshape⟩

/-- Where two functions succeed one after the other on all strings, mapping one after the other is
mapping both at once. -/
theorem exists_mapStringsM_bind (h : ∀ text ∈ value.strings, ∃ text', (g text >>= g') = .ok text') :
    ∃ result, (value.mapStringsM g >>= mapStringsM g') = .ok result ∧
      value.mapStringsM (fun text ↦ g text >>= g') = .ok result := by
  obtain ⟨results, hresults⟩ := exists_forall₂_iff.2 h
  have hshape := shape_withStrings value results
  have hstrings := strings_withStrings value results hresults.length_eq.symm
  have hboth : value.mapStringsM (fun text ↦ g text >>= g') = .ok (value.withStrings results) :=
    mapStringsM_eq_ok_iff.2 ⟨hshape, by rwa [hstrings]⟩
  -- The strings in between are those that the first function returns.
  simp only [bind_eq_ok] at hresults
  obtain ⟨others, hfirst, hsecond⟩ := forall₂_exists_iff.1 hresults
  have hshape' := shape_withStrings value others
  have hstrings' := strings_withStrings value others hfirst.length_eq.symm
  refine ⟨value.withStrings results, bind_eq_ok.2 ⟨value.withStrings others, ?_, ?_⟩, hboth⟩
  · apply mapStringsM_eq_ok_iff.2
    rw [hshape', hstrings']
    exact ⟨rfl, hfirst⟩
  · apply mapStringsM_eq_ok_iff.2
    rw [hshape, hshape', hstrings, hstrings']
    exact ⟨rfl, hsecond⟩

/-- Mapping over a value calls the function on each of its strings, depth first, each time in the
state that the call before has left. If all calls succeed, the result has the shape of the value,
and its strings are the results of the calls, in order. If some call fails, it is the last one, and
its failure is that of the run. So a function that returns what it is given leaves a value as it is,
and functions without a state may be mapped one after the other or both at once, if both succeed on
all strings. -/
theorem mapStringsM_visits (f : String → ExceptT ε (StateM σ) String) (value : Value) (state : σ) :
    (∀ result final, (value.mapStringsM f).run.run state = (.ok result, final) ↔
        result.shape = value.shape ∧ Calls f state value.strings result.strings final) ∧
      (∀ failure final, (value.mapStringsM f).run.run state = (.error failure, final) ↔
        CallsUntil f state value.strings failure final) ∧
      ((∀ text ∈ value.strings, ∀ state, ((f text).run.run state).1 = .ok text) →
        ((value.mapStringsM f).run.run state).1 = .ok value) ∧
      ∀ g g' : String → Except ε String,
        (∀ text ∈ value.strings, ∃ text', (g text >>= g') = .ok text') →
          ∃ result, (value.mapStringsM g >>= mapStringsM g') = .ok result ∧
            value.mapStringsM (fun text ↦ g text >>= g') = .ok result := by
  refine ⟨fun result final ↦ run_mapStringsM_eq_ok_iff,
    fun failure final ↦ run_mapStringsM_eq_error_iff, fun hself ↦ ?_,
    fun g g' h ↦ exists_mapStringsM_bind h⟩
  obtain ⟨final, hcalls⟩ := exists_calls_self hself state
  rw [run_mapStringsM_eq_ok_iff.2 ⟨rfl, hcalls⟩]

/-- The second string is refused, and the third one is not looked at. -/
example : ((sequence [.string "a", .mapping [("k", .string "")], .string "b"]).mapStringsM
    (fun text ↦ do
      modify (· ++ [text])
      if text.isEmpty then throw () else pure text :
        String → ExceptT Unit (StateM _) _)).run.run [] = (.error (), ["a", ""]) := by
  rfl

end Calls

end Reactor.Value

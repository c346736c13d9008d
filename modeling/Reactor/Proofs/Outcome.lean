import Mathlib.Data.List.Forall2
import Mathlib.Data.List.Nodup

/-!
# Outcomes of fallible steps

How a computation built from steps that may fail succeeds, in which ways it can fail, and what it
means that it is cut short or stays within a limit.
-/

namespace Reactor

variable {ε α β : Type}

theorem bind_eq_ok {x : Except ε α} {f : α → Except ε β} {b : β} :
    (x >>= f) = .ok b ↔ ∃ a, x = .ok a ∧ f a = .ok b := by
  cases x <;> simp [bind, Except.bind]

theorem bind_eq_error {x : Except ε α} {f : α → Except ε β} {failure : ε} :
    (x >>= f) = .error failure ↔ x = .error failure ∨ ∃ a, x = .ok a ∧ f a = .error failure := by
  cases x <;> simp [bind, Except.bind]

theorem map_eq_ok {x : Except ε α} {f : α → β} {b : β} :
    (f <$> x) = .ok b ↔ ∃ a, x = .ok a ∧ f a = b := by
  cases x <;> simp [Functor.map, Except.map]

theorem map_eq_error {x : Except ε α} {f : α → β} {failure : ε} :
    (f <$> x) = .error failure ↔ x = .error failure := by
  cases x <;> simp [Functor.map, Except.map]

theorem mapError_eq_ok {ε' : Type} {x : Except ε α} {f : ε → ε'} {a : α} :
    x.mapError f = .ok a ↔ x = .ok a := by
  cases x <;> simp [Except.mapError]

theorem mapError_eq_error {ε' : Type} {x : Except ε α} {f : ε → ε'} {failure : ε'} :
    x.mapError f = .error failure ↔ ∃ cause, x = .error cause ∧ f cause = failure := by
  cases x <;> simp [Except.mapError]

theorem toOption_eq_some {x : Except ε α} {a : α} : x.toOption = some a ↔ x = .ok a := by
  cases x <;> simp [Except.toOption]

theorem exists_error_of_ne_ok {x : Except ε α} (h : ∀ a, x ≠ .ok a) :
    ∃ failure, x = .error failure := by
  cases x with
  | ok a => exact absurd rfl (h a)
  | error failure => exact ⟨failure, rfl⟩

theorem mapM_eq_ok {f : α → Except ε β} {items : List α} {results : List β} :
    items.mapM f = .ok results ↔ List.Forall₂ (fun a b ↦ f a = .ok b) items results := by
  induction items generalizing results with
  | nil =>
    cases results with
    | nil => simp [pure, Except.pure]
    | cons b results => simp [pure, Except.pure]
  | cons a items ih =>
    rw [List.mapM_cons, bind_eq_ok]
    cases results with
    | nil => simp [bind_eq_ok, pure, Except.pure]
    | cons b results =>
      simp only [bind_eq_ok, pure, Except.pure, Except.ok.injEq, List.cons.injEq,
        List.forall₂_cons]
      constructor
      · rintro ⟨b, hb, results, hresults, rfl, rfl⟩
        exact ⟨hb, ih.1 hresults⟩
      · rintro ⟨hb, hresults⟩
        exact ⟨b, hb, results, ih.2 hresults, rfl, rfl⟩

/-- A step fails on a list if it fails on an item and succeeds on the items before it. -/
theorem mapM_eq_error {f : α → Except ε β} {items : List α} {failure : ε} :
    items.mapM f = .error failure ↔ ∃ before a after, items = before ++ a :: after ∧
      (∀ other ∈ before, ∃ b, f other = .ok b) ∧ f a = .error failure := by
  constructor
  · intro h
    induction items with
    | nil => cases h
    | cons a items ih =>
      rw [List.mapM_cons, bind_eq_error] at h
      rcases h with ha | ⟨b, hb, hrest⟩
      · exact ⟨[], a, items, rfl, by simp, ha⟩
      · rcases bind_eq_error.1 hrest with hitems | ⟨_, -, hpure⟩
        · obtain ⟨before, other, after, rfl, hbefore, hother⟩ := ih hitems
          exact ⟨a :: before, other, after, rfl, List.forall_mem_cons.2 ⟨⟨b, hb⟩, hbefore⟩, hother⟩
        · cases hpure
  · rintro ⟨before, a, after, rfl, hbefore, ha⟩
    induction before with
    | nil => rw [List.nil_append, List.mapM_cons, ha]; rfl
    | cons other before ih =>
      obtain ⟨⟨b, hb⟩, hrest⟩ := List.forall_mem_cons.1 hbefore
      rw [List.cons_append, List.mapM_cons, bind_eq_error]
      exact .inr ⟨b, hb, bind_eq_error.2 (.inl (ih hrest))⟩

/-- A step fails for the numbers below a limit if it fails for one and succeeds for smaller ones. -/
theorem mapM_range_eq_error {f : Nat → Except ε β} {n : Nat} {failure : ε} :
    (List.range n).mapM f = .error failure ↔
      ∃ index < n, (∀ earlier < index, ∃ b, f earlier = .ok b) ∧ f index = .error failure := by
  constructor
  · intro h
    obtain ⟨before, index, after, hrange, hbefore, hindex⟩ := mapM_eq_error.1 h
    rw [List.range_eq_range', List.range'_eq_append_iff] at hrange
    obtain ⟨k, hk, rfl, hafter⟩ := hrange
    rw [eq_comm, List.range'_eq_cons_iff] at hafter
    obtain ⟨rfl, hpos, -⟩ := hafter
    refine ⟨_, ?_, fun earlier hearlier ↦ hbefore earlier ?_, hindex⟩
    · omega
    · simpa [List.mem_range'_1] using hearlier
  · rintro ⟨index, hindex, hbefore, hfails⟩
    refine mapM_eq_error.2 ⟨List.range index, index, List.range' (index + 1) (n - (index + 1)), ?_,
      fun other hother ↦ hbefore other (List.mem_range.1 hother), hfails⟩
    have hlength : n - index = n - (index + 1) + 1 := by omega
    rw [List.range_eq_range', List.range'_eq_append_iff]
    exact ⟨index, Nat.le_of_lt hindex, List.range_eq_range', by simp [hlength, List.range'_succ]⟩

theorem exists_of_forall₂ {R : α → β → Prop} {items : List α} {results : List β}
    (h : List.Forall₂ R items results) {a : α} (ha : a ∈ items) : ∃ b ∈ results, R a b := by
  induction h with
  | nil => cases ha
  | cons hhead _ ih =>
    rcases List.mem_cons.1 ha with rfl | ha
    · exact ⟨_, List.mem_cons_self, hhead⟩
    · obtain ⟨b, hb, hrelated⟩ := ih ha
      exact ⟨b, List.mem_cons_of_mem _ hb, hrelated⟩

theorem rel_getElem?_of_forall₂ {R : α → β → Prop} {items : List α} {results : List β}
    (h : List.Forall₂ R items results) (i : Nat) : Option.Rel R items[i]? results[i]? := by
  induction h generalizing i with
  | nil => exact .none
  | cons hhead _ ih =>
    cases i with
    | zero => exact .some hhead
    | succ i => exact ih i

theorem exists_forall₂_iff {R : α → β → Prop} {items : List α} :
    (∃ results, List.Forall₂ R items results) ↔ ∀ a ∈ items, ∃ b, R a b := by
  induction items with
  | nil => simp
  | cons a items ih => simp [List.forall₂_cons_left_iff, ← ih]

/-- Items that are related by way of others in between. -/
theorem forall₂_exists_iff {γ : Type} {R : α → β → Prop} {S : β → γ → Prop} {items : List α}
    {results : List γ} : List.Forall₂ (fun a c ↦ ∃ b, R a b ∧ S b c) items results ↔
      ∃ others, List.Forall₂ R items others ∧ List.Forall₂ S others results := by
  constructor
  · intro h
    induction h with
    | nil => exact ⟨[], .nil, .nil⟩
    | cons hhead _ ih =>
      obtain ⟨b, hleft, hright⟩ := hhead
      obtain ⟨others, hlefts, hrights⟩ := ih
      exact ⟨b :: others, .cons hleft hlefts, .cons hright hrights⟩
  · rintro ⟨others, hlefts, hrights⟩
    induction hlefts generalizing results with
    | nil =>
      cases hrights
      exact .nil
    | cons hleft _ ih =>
      cases hrights with
      | cons hright hrights => exact .cons ⟨_, hleft, hright⟩ (ih hrights)

theorem map_eq_of_forall₂ {γ : Type} {R : α → β → Prop} {f : α → γ} {g : β → γ} {items : List α}
    {results : List β} (h : List.Forall₂ R items results) (hR : ∀ a b, R a b → f a = g b) :
    items.map f = results.map g := by
  rw [← List.forall₂_eq_eq_eq, List.forall₂_map_left_iff, List.forall₂_map_right_iff]
  exact h.imp hR

/-- Results with distinct keys exist if there is a result for each item, as long as the items tell
the keys of their results. -/
theorem exists_forall₂_nodup_iff {γ : Type} {R : α → β → Prop} {f : α → Option γ} {g : β → γ}
    (hR : ∀ a b, R a b → f a = some (g b)) (items : List α) :
    (∃ results, List.Forall₂ R items results ∧ (results.map g).Nodup) ↔
      (∀ a ∈ items, ∃ b, R a b) ∧ (items.map f).Nodup := by
  have hkeys {results : List β} (h : List.Forall₂ R items results) :
      (items.map f).Nodup ↔ (results.map g).Nodup := by
    rw [map_eq_of_forall₂ (g := some ∘ g) h hR, ← List.map_map,
      List.nodup_map_iff fun _ _ h ↦ Option.some.inj h]
  rw [← exists_forall₂_iff]
  constructor
  · rintro ⟨results, h, hnodup⟩
    exact ⟨⟨results, h⟩, (hkeys h).2 hnodup⟩
  · rintro ⟨⟨results, h⟩, hnodup⟩
    exact ⟨results, h, (hkeys h).1 hnodup⟩

theorem option_mapM_eq_ok {f : α → Except ε β} {item : Option α} {result : Option β} :
    item.mapM f = .ok result ↔ Option.Rel (fun a b ↦ f a = .ok b) item result := by
  cases item with
  | none => cases result <;> simp [pure, Except.pure]
  | some a =>
    change some <$> f a = .ok result ↔ _
    rw [map_eq_ok]
    cases result <;> simp

theorem exists_of_rel_some {R : α → β → Prop} {item : Option α} {b : β}
    (h : Option.Rel R item (some b)) : ∃ a, item = some a ∧ R a b := by
  cases h with
  | some h => exact ⟨_, rfl, h⟩

theorem exists_rel_iff {R : α → β → Prop} {item : Option α} :
    (∃ result, Option.Rel R item result) ↔ ∀ a, item = some a → ∃ b, R a b := by
  cases item with
  | none => simpa using ⟨none, Option.Rel.none⟩
  | some a =>
    constructor
    · rintro ⟨_, ⟨h⟩⟩ _ ⟨⟩
      exact ⟨_, h⟩
    · intro h
      obtain ⟨b, hb⟩ := h a rfl
      exact ⟨some b, .some hb⟩

/-- If a step succeeds on a whole list, it succeeds on every item. -/
theorem ok_of_mem_mapM {f : α → Except ε β} {items : List α} {results : List β}
    (h : items.mapM f = .ok results) {a : α} (ha : a ∈ items) : ∃ b ∈ results, f a = .ok b :=
  exists_of_forall₂ (mapM_eq_ok.1 h) ha

/-- Every failure of a step has the given property. -/
def FailsOnly (P : ε → Prop) (x : Except ε α) : Prop :=
  ∀ failure, x = .error failure → P failure

namespace FailsOnly

variable {P : ε → Prop}

theorem ok (a : α) : FailsOnly P (.ok a : Except ε α) := by
  rintro failure ⟨⟩

theorem error {failure : ε} (h : P failure) : FailsOnly P (.error failure : Except ε α) := by
  rintro _ ⟨⟩
  exact h

theorem bind {x : Except ε α} {f : α → Except ε β} (hx : FailsOnly P x)
    (hf : ∀ a, x = .ok a → FailsOnly P (f a)) : FailsOnly P (x >>= f) := by
  cases x with
  | error failure => exact .error (hx failure rfl)
  | ok a => exact hf a rfl

theorem map {x : Except ε α} (f : α → β) (hx : FailsOnly P x) : FailsOnly P (f <$> x) := by
  cases x with
  | error failure => exact .error (hx failure rfl)
  | ok a => exact .ok (f a)

theorem mapM {f : α → Except ε β} {items : List α} (h : ∀ a ∈ items, FailsOnly P (f a)) :
    FailsOnly P (items.mapM f) := by
  induction items with
  | nil => exact .ok []
  | cons a items ih =>
    rw [List.mapM_cons]
    refine (h a List.mem_cons_self).bind fun b _ ↦ ?_
    exact (ih fun other hother ↦ h other (List.mem_cons_of_mem _ hother)).bind fun results _ ↦
      .ok (b :: results)

theorem option_mapM {f : α → Except ε β} {item : Option α} (h : ∀ a ∈ item, FailsOnly P (f a)) :
    FailsOnly P (item.mapM f) := by
  cases item with
  | none => exact .ok none
  | some a => exact (h a rfl).map some

theorem mapError {ε' : Type} {f : ε' → ε} {x : Except ε' α} (h : ∀ failure, P (f failure)) :
    FailsOnly P (x.mapError f) := by
  cases x with
  | error failure => exact .error (h failure)
  | ok a => exact .ok a

/-- What a failure is turned into may depend on the ways in which the step can fail. -/
theorem mapError_of_failsOnly {ε' : Type} {Q : ε' → Prop} {f : ε' → ε} {x : Except ε' α}
    (hx : FailsOnly Q x) (h : ∀ failure, Q failure → P (f failure)) :
    FailsOnly P (x.mapError f) := by
  cases x with
  | error failure => exact .error (h failure (hx failure rfl))
  | ok a => exact .ok a

end FailsOnly

/-- A step that cannot fail in any way succeeds. -/
theorem failsOnly_false_iff {x : Except ε α} :
    FailsOnly (fun _ ↦ False) x ↔ ∃ a, x = .ok a := by
  cases x <;> simp [FailsOnly]

/-! ## Steps that succeed where others do -/

/-- Every value that the first step returns, the second one returns, too. -/
def CarriesOver (x y : Except ε α) : Prop :=
  ∀ a, x = .ok a → y = .ok a

namespace CarriesOver

variable {x y : Except ε α}

theorem refl (x : Except ε α) : CarriesOver x x := by
  intro a h
  exact h

theorem bind {f g : α → Except ε β} (hx : CarriesOver x y)
    (hf : ∀ a, x = .ok a → CarriesOver (f a) (g a)) : CarriesOver (x >>= f) (y >>= g) := by
  intro b hb
  obtain ⟨a, ha, hb⟩ := bind_eq_ok.1 hb
  exact bind_eq_ok.2 ⟨a, hx a ha, hf a ha b hb⟩

theorem map (f : α → β) (hx : CarriesOver x y) : CarriesOver (f <$> x) (f <$> y) := by
  intro b hb
  obtain ⟨a, ha, hb⟩ := map_eq_ok.1 hb
  exact map_eq_ok.2 ⟨a, hx a ha, hb⟩

theorem mapError {ε' : Type} {x y : Except ε' α} (f : ε' → ε) (hx : CarriesOver x y) :
    CarriesOver (x.mapError f) (y.mapError f) := by
  intro a ha
  exact mapError_eq_ok.2 (hx a (mapError_eq_ok.1 ha))

theorem mapM {f g : α → Except ε β} (h : ∀ a, CarriesOver (f a) (g a)) (items : List α) :
    CarriesOver (items.mapM f) (items.mapM g) := by
  intro results hresults
  have hitems := mapM_eq_ok.1 hresults
  exact mapM_eq_ok.2 (hitems.imp fun a b hab ↦ h a b hab)

theorem option_mapM {f g : α → Except ε β} (h : ∀ a, CarriesOver (f a) (g a)) (item : Option α) :
    CarriesOver (item.mapM f) (item.mapM g) := by
  cases item with
  | none => exact .refl _
  | some a => exact (h a).map some

end CarriesOver

/-! ## Runs that may be cut short -/

/-- Both runs come to the same, unless the first one ends early with a failure that has the given
property. -/
def SameUnless (P : ε → Prop) (x y : Except ε α) : Prop :=
  x = y ∨ ∃ failure, P failure ∧ x = .error failure

namespace SameUnless

variable {P : ε → Prop} {x y : Except ε α}

theorem refl (x : Except ε α) : SameUnless P x x :=
  .inl rfl

theorem error {failure : ε} (h : P failure) : SameUnless P (.error failure) y :=
  .inr ⟨failure, h, rfl⟩

theorem bind {f g : α → Except ε β} (hx : SameUnless P x y)
    (hf : ∀ a, SameUnless P (f a) (g a)) : SameUnless P (x >>= f) (y >>= g) := by
  rcases hx with rfl | ⟨failure, hfailure, rfl⟩
  · cases x with
    | error failure => exact .refl _
    | ok a => exact hf a
  · exact .error hfailure

theorem map (f : α → β) (hx : SameUnless P x y) : SameUnless P (f <$> x) (f <$> y) := by
  rcases hx with rfl | ⟨failure, hfailure, rfl⟩
  · exact .refl _
  · exact .error hfailure

end SameUnless

/-! ## Runs with a limit -/

/-- The outcome of a run with a limit. There is none if the run reaches the limit. -/
abbrev Limited (ε α : Type) :=
  ExceptT ε Option α

namespace Limited

/-- No outcome, since the limit was reached. -/
def exceeded : Limited ε α :=
  ExceptT.mk none

/-- The outcome of a run that stays within its limit. -/
def within (outcome : Except ε α) : Limited ε α :=
  ExceptT.mk (some outcome)

/-- A run stays within its limit if its first part does, and so does what comes after it. -/
theorem within_bind {outcome : Except ε α} {f : α → Except ε β} {g : α → Limited ε β}
    (h : ∀ value, outcome = .ok value → g value = within (f value)) :
    within outcome >>= g = within (outcome >>= f) := by
  cases outcome with
  | error failure => rfl
  | ok value => exact h value rfl

theorem map_within (outcome : Except ε α) (f : α → β) :
    f <$> within outcome = within (f <$> outcome) := by
  cases outcome <;> rfl

end Limited

end Reactor

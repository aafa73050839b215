import Mathlib.Data.List.Forall2

/-!
# Results in sequence

How a computation that may fail ends, from how its parts end.

* `bind_eq_ok_iff` and `bind_eq_error_iff`: two parts one after the other.
* `map_eq_ok_iff` and `map_eq_error_iff`: a part whose value is rewritten.
* `mapError_eq_ok_iff`, `mapError_eq_error_iff` and `mapError_map`: a part whose errors are
  rewritten.
* `exists_split_cons_iff`: an element of a list, with what is in front of it and behind it.
* `exists_forall₂_iff`: a list related to another one, element by element.
* `ComesTo`: going along a list, past what may be passed, up to an element that ends it.
-/

namespace FieldRules

variable {ε ε' α β : Type}

theorem bind_eq_ok_iff {x : Except ε α} {f : α → Except ε β} {b : β} :
    x >>= f = .ok b ↔ ∃ a, x = .ok a ∧ f a = .ok b := by
  cases x <;> simp [bind, Except.bind]

/-- Two parts fail if the first does, or the second after it. -/
theorem bind_eq_error_iff {x : Except ε α} {f : α → Except ε β} {e : ε} :
    x >>= f = .error e ↔ x = .error e ∨ ∃ a, x = .ok a ∧ f a = .error e := by
  cases x <;> simp [bind, Except.bind]

/-- Second parts count only where the first part succeeds. -/
theorem bind_congr_of_ok {x : Except ε α} {f g : α → Except ε β} (h : ∀ a, x = .ok a → f a = g a) :
    x >>= f = x >>= g := by
  cases x with
  | error e => rfl
  | ok a => exact h a rfl

theorem map_eq_ok_iff {x : Except ε α} {f : α → β} {b : β} :
    x.map f = .ok b ↔ ∃ a, x = .ok a ∧ f a = b := by
  cases x <;> simp [Except.map]

theorem map_eq_error_iff {x : Except ε α} {f : α → β} {e : ε} :
    x.map f = .error e ↔ x = .error e := by
  cases x <;> simp [Except.map]

@[simp] theorem mapError_ok (f : ε → ε') (a : α) :
    (Except.ok a : Except ε α).mapError f = .ok a := rfl

@[simp] theorem mapError_error (f : ε → ε') (e : ε) :
    (Except.error e : Except ε α).mapError f = .error (f e) := rfl

theorem mapError_eq_ok_iff {x : Except ε α} {f : ε → ε'} {a : α} :
    x.mapError f = .ok a ↔ x = .ok a := by
  cases x <;> simp

theorem mapError_eq_error_iff {x : Except ε α} {f : ε → ε'} {e' : ε'} :
    x.mapError f = .error e' ↔ ∃ e, x = .error e ∧ f e = e' := by
  cases x <;> simp

theorem mapError_map (f : α → β) (g : ε → ε') (x : Except ε α) :
    (x.map f).mapError g = (x.mapError g).map f := by
  cases x <;> rfl

/-! ### Lists -/

theorem exists_split_cons_iff {P : List α → α → List α → Prop} {a : α} {list : List α} :
    (∃ before b after, a :: list = before ++ b :: after ∧ P before b after) ↔
      P [] a list ∨ ∃ before b after, list = before ++ b :: after ∧ P (a :: before) b after := by
  constructor
  · rintro ⟨before, b, after, hlist, h⟩
    cases before with
    | nil =>
      cases hlist
      exact Or.inl h
    | cons first before =>
      cases hlist
      exact Or.inr ⟨before, b, after, rfl, h⟩
  · rintro (h | ⟨before, b, after, rfl, h⟩)
    · exact ⟨[], a, list, rfl, h⟩
    · exact ⟨a :: before, b, after, rfl, h⟩

theorem exists_forall₂_iff {R : α → β → Prop} {list : List α} :
    (∃ others, List.Forall₂ R list others) ↔ ∀ a ∈ list, ∃ b, R a b := by
  induction list with
  | nil => exact iff_of_true ⟨[], .nil⟩ (by simp)
  | cons a list ih =>
    rw [List.forall_mem_cons, ← ih]
    constructor
    · rintro ⟨_, hothers⟩
      cases hothers with
      | cons hb hothers => exact ⟨⟨_, hb⟩, _, hothers⟩
    · rintro ⟨⟨b, hb⟩, others, hothers⟩
      exact ⟨b :: others, .cons hb hothers⟩

/-- Holds of a list in which an element that ends the way comes behind elements that may all be
passed. -/
def ComesTo (passes ends : α → Prop) (list : List α) : Prop :=
  ∃ before a after, list = before ++ a :: after ∧ (∀ b ∈ before, passes b) ∧ ends a

section ComesTo

variable {passes ends : α → Prop} {a : α} {list : List α}

theorem not_comesTo_nil : ¬ ComesTo passes ends [] := by
  rintro ⟨before, a, after, hlist, -⟩
  cases before <;> cases hlist

/-- The way ends at the first element, or goes past it and ends among the others. -/
theorem comesTo_cons :
    ComesTo passes ends (a :: list) ↔ ends a ∨ passes a ∧ ComesTo passes ends list := by
  constructor
  · rintro ⟨before, b, after, hlist, hbefore, hb⟩
    cases before with
    | nil =>
      cases hlist
      exact Or.inl hb
    | cons first before =>
      cases hlist
      exact Or.inr ⟨hbefore a (by simp), before, b, after, rfl, fun c hc =>
        hbefore c (by simp [hc]), hb⟩
  · rintro (ha | ⟨ha, before, b, after, rfl, hbefore, hb⟩)
    · exact ⟨[], a, list, rfl, by simp, ha⟩
    · refine ⟨a :: before, b, after, rfl, ?_, hb⟩
      intro c hc
      rcases List.mem_cons.1 hc with rfl | hc
      · exact ha
      · exact hbefore c hc

theorem comesTo_congr {ends' : α → Prop} (h : ∀ a, ends a ↔ ends' a) :
    ComesTo passes ends list ↔ ComesTo passes ends' list := by
  rw [show ends = ends' from funext fun a => propext (h a)]

theorem comesTo_map_iff {f : β → α} {list : List β} :
    ComesTo passes ends (list.map f) ↔
      ComesTo (fun b => passes (f b)) (fun b => ends (f b)) list := by
  induction list with
  | nil => simp [not_comesTo_nil]
  | cons b list ih => rw [List.map_cons, comesTo_cons, comesTo_cons, ih]

/-- The way ends somewhere if some element ends it, where each element ends it or may be passed. -/
theorem exists_comesTo_iff {ι : Type} {ends : ι → α → Prop} (h : ∀ a, passes a ∨ ∃ i, ends i a) :
    (∃ i, ComesTo passes (ends i) list) ↔ ∃ a ∈ list, ∃ i, ends i a := by
  induction list with
  | nil => simp [not_comesTo_nil]
  | cons a list ih =>
    simp only [comesTo_cons, exists_or, List.mem_cons, exists_eq_or_imp, ← ih]
    constructor
    · rintro (ha | ⟨i, -, hi⟩)
      · exact Or.inl ha
      · exact Or.inr ⟨i, hi⟩
    · rintro (ha | ⟨i, hi⟩)
      · exact Or.inl ha
      · rcases h a with hpasses | ha
        · exact Or.inr ⟨i, hpasses, hi⟩
        · exact Or.inl ha

end ComesTo

end FieldRules

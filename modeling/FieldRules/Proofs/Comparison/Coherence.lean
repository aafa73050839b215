import FieldRules.Comparison
import Mathlib.Logic.ExistsUnique
import Mathlib.Tactic.SplitIfs

/-!
# How the operators hang together

The six operators answer for a value and a literal as for two members of an order, if the two have
one. Else they only tell whether the two are the same.

* `HaveOrder`: holds of two numbers and of two strings.
* `Coherent`: the laws of the six answers.
* `coherent_ordered`, `coherent_unordered`: the answers for either kind of relation obey them.
* `exists_relate_of_haveOrder`, `exists_relate_of_not_haveOrder`: which relation a value and a
  literal stand in.
* `compareWith_coherent`: the answers for every value and every literal obey the laws.
-/

namespace FieldRules

/-! ### Laws -/

/-- Holds of six answers that hang together. Equal or not equal is answered, and one of the two is
satisfied. If there is an order, every operator is answered, one of less, equal and greater is
satisfied, and the other two follow from these; without an order, the four operators that ask for
one have none to go by. -/
structure Coherent (hasOrder : Prop) (answer : Operator → Comparison) : Prop where
  equality : answer .equal = .satisfied ∧ answer .notEqual = .unsatisfied ∨
    answer .equal = .unsatisfied ∧ answer .notEqual = .satisfied
  decided : hasOrder → ∀ operator, answer operator ≠ .mismatch
  trichotomy : hasOrder → ∃! operator, operator ∈ [Operator.less, .equal, .greater] ∧
    answer operator = .satisfied
  lessEqual : hasOrder →
    (answer .lessEqual = .satisfied ↔ answer .less = .satisfied ∨ answer .equal = .satisfied)
  greaterEqual : hasOrder →
    (answer .greaterEqual = .satisfied ↔ answer .greater = .satisfied ∨ answer .equal = .satisfied)
  mismatch : ¬ hasOrder → ∀ operator : Operator, operator.isEquality = false →
    answer operator = .mismatch

/-- The operator that an order satisfies, of less, equal and greater. -/
def Operator.ofOrder : Ordering → Operator
  | .lt => .less
  | .eq => .equal
  | .gt => .greater

/-- Of less, equal and greater an order satisfies exactly one. -/
theorem Operator.accepts_iff_eq_ofOrder {operator : Operator}
    (h : operator ∈ [less, equal, greater]) (order : Ordering) :
    operator.accepts (some order) = true ↔ operator = ofOrder order := by
  simp only [List.mem_cons, List.not_mem_nil, or_false] at h
  rcases h with rfl | rfl | rfl <;> cases order <;> decide

variable {hasOrder : Prop}

/-- The answers for an order hang together. -/
theorem coherent_ordered (h : hasOrder) (order : Ordering) :
    Coherent hasOrder (Relation.judge · (.ordered (some order))) where
  equality := by cases order <;> decide
  decided := by
    intro _ operator
    rw [Relation.judge_ordered]
    exact Comparison.ofBool_ne_mismatch _
  trichotomy := by
    intro _
    simp only [Relation.judge_ordered, Comparison.ofBool_eq_satisfied_iff]
    have hmem : Operator.ofOrder order ∈ [Operator.less, .equal, .greater] := by
      cases order <;> decide
    refine ⟨.ofOrder order, ⟨hmem, (Operator.accepts_iff_eq_ofOrder hmem order).2 rfl⟩, ?_⟩
    rintro operator ⟨hoperator, haccepts⟩
    exact (Operator.accepts_iff_eq_ofOrder hoperator order).1 haccepts
  lessEqual := fun _ => by cases order <;> decide
  greaterEqual := fun _ => by cases order <;> decide
  mismatch := fun hnot => absurd h hnot

/-- The answers for what is the same or not, and has no order, hang together. -/
theorem coherent_unordered (h : ¬ hasOrder) (same : Bool) :
    Coherent hasOrder (Relation.judge · (.unordered same)) where
  equality := by cases same <;> decide
  decided := fun horder => absurd horder h
  trichotomy := fun horder => absurd horder h
  lessEqual := fun horder => absurd horder h
  greaterEqual := fun horder => absurd horder h
  mismatch := by
    intro _ operator hoperator
    rw [Relation.judge, hoperator]
    rfl

/-! ### Values and literals -/

namespace Binary64

variable {x y : Binary64}

theorem exists_extent_of_ne_nan (h : x ≠ .nan) : ∃ e, x.extent = some e := by
  cases x with
  | finite negative rank => exact ⟨_, rfl⟩
  | infinite negative => exact ⟨_, rfl⟩
  | nan => exact absurd rfl h

theorem exists_order? (hx : x ≠ .nan) (hy : y ≠ .nan) : ∃ order, order? x y = some order := by
  obtain ⟨e, he⟩ := exists_extent_of_ne_nan hx
  obtain ⟨f, hf⟩ := exists_extent_of_ne_nan hy
  exact ⟨_, order?_eq_some he hf⟩

theorem ofInt_ne_nan (n : Int) : ofInt n ≠ .nan := by
  rw [ofInt, ofRatio, ofRank]
  split_ifs <;> simp

end Binary64

/-- The kind of the values that a literal is like. -/
def Literal.kind : Literal → Json.Kind
  | .integer _ => .number
  | .double _ => .number
  | .bool _ => .boolean
  | .string _ => .string

/-- Holds of a value and a literal that are both numbers, or both strings. -/
def HaveOrder (value : Json) (literal : Literal) : Prop :=
  value.kind = .number ∧ literal.kind = .number ∨ value.kind = .string ∧ literal.kind = .string

variable {value : Json} {literal : Literal}

/-- Two numbers, or two strings, stand in some order. -/
theorem exists_relate_of_haveOrder (ignoreCase : Bool) (hvalue : value ≠ .double .nan)
    (hliteral : literal ≠ .double .nan) (h : HaveOrder value literal) :
    ∃ order, relate ignoreCase value literal = .ordered (some order) := by
  rcases h with ⟨hnumber, hnumber'⟩ | ⟨hstring, hstring'⟩
  · cases value with
    | integer m =>
      cases literal with
      | integer n => exact ⟨_, rfl⟩
      | double y =>
        obtain ⟨order, horder⟩ :=
          Binary64.exists_order? (Binary64.ofInt_ne_nan m) (mt (congrArg Literal.double) hliteral)
        exact ⟨order, by rw [relate, horder]⟩
      | _ => cases hnumber'
    | double x =>
      have hx : x ≠ .nan := mt (congrArg Json.double) hvalue
      cases literal with
      | integer n =>
        obtain ⟨order, horder⟩ := Binary64.exists_order? hx (Binary64.ofInt_ne_nan n.toInt)
        exact ⟨order, by rw [relate, horder]⟩
      | double y =>
        obtain ⟨order, horder⟩ := Binary64.exists_order? hx (mt (congrArg Literal.double) hliteral)
        exact ⟨order, by rw [relate, horder]⟩
      | _ => cases hnumber'
    | _ => cases hnumber
  · cases value with
    | string s =>
      cases literal with
      | string t => exact ⟨_, rfl⟩
      | _ => cases hstring'
    | _ => cases hstring

/-- Without an order a value and a literal are the same or not, and they are the same only if they
are of one kind. -/
theorem exists_relate_of_not_haveOrder (ignoreCase : Bool) (h : ¬ HaveOrder value literal) :
    ∃ same, relate ignoreCase value literal = .unordered same ∧
      (same = true → value.kind = literal.kind) := by
  have hnumbers : ¬ (value.kind = .number ∧ literal.kind = .number) := fun hboth => h (Or.inl hboth)
  have hstrings : ¬ (value.kind = .string ∧ literal.kind = .string) := fun hboth => h (Or.inr hboth)
  cases value with
  | bool a =>
    cases literal with
    | bool b => exact ⟨_, rfl, fun _ => rfl⟩
    | _ => exact ⟨false, rfl, nofun⟩
  | integer m =>
    cases literal with
    | integer n => exact absurd ⟨rfl, rfl⟩ hnumbers
    | double y => exact absurd ⟨rfl, rfl⟩ hnumbers
    | _ => exact ⟨false, rfl, nofun⟩
  | double x =>
    cases literal with
    | integer n => exact absurd ⟨rfl, rfl⟩ hnumbers
    | double y => exact absurd ⟨rfl, rfl⟩ hnumbers
    | _ => exact ⟨false, rfl, nofun⟩
  | string s =>
    cases literal with
    | string t => exact absurd ⟨rfl, rfl⟩ hstrings
    | _ => exact ⟨false, rfl, nofun⟩
  | _ => exact ⟨false, by cases literal <;> rfl, nofun⟩

/-- The six operators hang together on every value and every literal, a binary64 that is not a
number apart: two numbers or two strings are compared as members of an order, and nothing else has
one. What is of different kinds is not equal. -/
theorem compareWith_coherent (ignoreCase : Bool) (hvalue : value ≠ .double .nan)
    (hliteral : literal ≠ .double .nan) :
    Coherent (HaveOrder value literal) (compareWith value · literal ignoreCase) ∧
    (value.kind ≠ literal.kind → compareWith value .equal literal ignoreCase = .unsatisfied) := by
  unfold compareWith
  by_cases horder : HaveOrder value literal
  · obtain ⟨order, hrelate⟩ := exists_relate_of_haveOrder ignoreCase hvalue hliteral horder
    rw [hrelate]
    refine ⟨coherent_ordered horder order, fun hkind => absurd ?_ hkind⟩
    rcases horder with ⟨hnumber, hnumber'⟩ | ⟨hstring, hstring'⟩
    · exact hnumber.trans hnumber'.symm
    · exact hstring.trans hstring'.symm
  · obtain ⟨same, hrelate, hsame⟩ := exists_relate_of_not_haveOrder ignoreCase horder
    rw [hrelate]
    refine ⟨coherent_unordered horder same, fun hkind => ?_⟩
    cases same with
    | false => rfl
    | true => exact absurd (hsame rfl) hkind

/-- Infinity and the greatest integer have an order, two strings that differ in case have one,
`true` and `1` have none. -/
theorem compareWith_coherent_of_hard_pairs :
    Coherent (HaveOrder (.double (.infinite false)) (.integer Int64.maxValue))
      (compareWith (.double (.infinite false)) · (.integer Int64.maxValue) false) ∧
    Coherent (HaveOrder (.string (utf8 "Cat")) (.string (utf8 "cAT")))
      (compareWith (.string (utf8 "Cat")) · (.string (utf8 "cAT")) true) ∧
    compareWith (.bool true) .equal (.integer 1) false = .unsatisfied :=
  ⟨(compareWith_coherent false (by decide) (by decide)).1,
    (compareWith_coherent true (by decide) (by decide)).1,
    (compareWith_coherent false (by decide) (by decide)).2 (by decide)⟩

end FieldRules

import FieldRules.Comparison
import Mathlib.Data.List.Forall2

/-!
# Comparing without regard to case

Ignoring case folds the letters of two strings that are compared, and nothing else.

* `Ascii.SameButCase`, `Bytes.SameButCase`: bytes, and texts, that differ in the case of letters at
  most.
* `map_toLower_eq_iff`: these are the texts that fold to the same.
* `compareWith_of_sameButCase_left`, `compareWith_of_sameButCase_right`: either side of a comparison
  may be written in another case.
* `compareWith_eq_of_not_strings`: only two strings are compared in another way.
* `compareWith_eq_mismatch_iff`: whether there is an answer does not depend on case.
* `equal_of_ignoreCase`, `notEqual_of_exact`: what is equal is equal without regard to case.
-/

namespace FieldRules

/-! ### Bytes -/

namespace Ascii

/-- Holds of two bytes that are the same or the upper-case and the lower-case form of one letter. -/
def SameButCase (a b : UInt8) : Prop :=
  a = b ∨ (isUpper a = true ∧ b = a + 0x20) ∨ (isUpper b = true ∧ a = b + 0x20)

/-- The lower-case form of a letter is no upper-case letter. -/
theorem isUpper_add {a : UInt8} (h : isUpper a = true) : isUpper (a + 0x20) = false := by
  simp only [isUpper, Bool.and_eq_true, decide_eq_true_eq, UInt8.le_iff_toNat_le,
    Bool.and_eq_false_imp, decide_eq_false_iff_not, UInt8.toNat_add, UInt8.reduceToNat] at h ⊢
  omega

theorem toLower_eq_toLower_iff {a b : UInt8} : toLower a = toLower b ↔ SameButCase a b := by
  unfold SameButCase
  cases ha : isUpper a with
  | true =>
    rw [toLower_of_isUpper ha]
    cases hb : isUpper b with
    | true =>
      rw [toLower_of_isUpper hb, UInt8.add_left_inj]
      constructor
      · exact Or.inl
      · rintro (hab | ⟨-, rfl⟩ | ⟨-, rfl⟩)
        · exact hab
        · simp [isUpper_add ha] at hb
        · simp [isUpper_add hb] at ha
    | false =>
      rw [toLower_of_not_isUpper hb]
      constructor
      · rintro rfl
        exact Or.inr (Or.inl ⟨rfl, rfl⟩)
      · rintro (rfl | ⟨-, hab⟩ | ⟨hupper, -⟩)
        · simp [ha] at hb
        · exact hab.symm
        · cases hupper
  | false =>
    rw [toLower_of_not_isUpper ha]
    cases hb : isUpper b with
    | true =>
      rw [toLower_of_isUpper hb]
      constructor
      · rintro rfl
        exact Or.inr (Or.inr ⟨rfl, rfl⟩)
      · rintro (rfl | ⟨hupper, -⟩ | ⟨-, hab⟩)
        · simp [ha] at hb
        · cases hupper
        · exact hab
    | false =>
      rw [toLower_of_not_isUpper hb]
      simp

end Ascii

/-- Holds of two texts of one length that differ in the case of letters at most. -/
def Bytes.SameButCase (s t : Bytes) : Prop :=
  List.Forall₂ Ascii.SameButCase s t

theorem map_toLower_eq_iff {s t : Bytes} :
    s.map Ascii.toLower = t.map Ascii.toLower ↔ s.SameButCase t := by
  rw [Bytes.SameButCase, ← List.forall₂_eq_eq_eq, List.forall₂_map_left_iff,
    List.forall₂_map_right_iff]
  simp only [Ascii.toLower_eq_toLower_iff]

/-! ### Comparisons -/

variable {s t : Bytes} {value : Json} {operand : Literal}

theorem compareWith_of_sameButCase_left (h : s.SameButCase t) (operator : Operator)
    (operand : Literal) :
    compareWith (.string s) operator operand true =
      compareWith (.string t) operator operand true := by
  cases operand with
  | string u => simp only [compareWith, relate, foldCase_true, map_toLower_eq_iff.2 h]
  | _ => rfl

theorem compareWith_of_sameButCase_right (h : s.SameButCase t) (value : Json)
    (operator : Operator) :
    compareWith value operator (.string s) true = compareWith value operator (.string t) true := by
  cases value with
  | string u => simp only [compareWith, relate, foldCase_true, map_toLower_eq_iff.2 h]
  | _ => rfl

/-- Two strings are equal without regard to case if they differ in the case of letters at most. -/
theorem compareWith_equal_iff_sameButCase :
    compareWith (.string s) .equal (.string t) true = .satisfied ↔ s.SameButCase t := by
  simp [compareWith, relate, Operator.accepts, Bytes.order_eq_eq_iff, map_toLower_eq_iff]

/-- Case counts for nothing but two strings. -/
theorem compareWith_eq_of_not_strings (h : ¬ ∃ s t, value = .string s ∧ operand = .string t)
    (operator : Operator) (ignoreCase : Bool) :
    compareWith value operator operand ignoreCase = compareWith value operator operand false := by
  cases value with
  | string s =>
    cases operand with
    | string t => exact absurd ⟨s, t, rfl, rfl⟩ h
    | _ => rfl
  | _ => cases operand <;> rfl

theorem compareWith_eq_mismatch_iff (value : Json) (operator : Operator) (operand : Literal)
    (ignoreCase : Bool) :
    compareWith value operator operand ignoreCase = .mismatch ↔
      compareWith value operator operand false = .mismatch := by
  by_cases hstrings : ∃ s t, value = .string s ∧ operand = .string t
  · obtain ⟨s, t, rfl, rfl⟩ := hstrings
    simp [compareWith, relate]
  · rw [compareWith_eq_of_not_strings hstrings]

theorem Comparison.ofBool_eq_unsatisfied_iff {holds : Bool} :
    ofBool holds = .unsatisfied ↔ holds = false := by
  cases holds <;> decide

theorem equal_of_ignoreCase (h : compareWith value .equal operand true = .unsatisfied) :
    compareWith value .equal operand false = .unsatisfied := by
  by_cases hstrings : ∃ s t, value = .string s ∧ operand = .string t
  · obtain ⟨s, t, rfl, rfl⟩ := hstrings
    simp only [compareWith, relate, Relation.judge_ordered, Comparison.ofBool_eq_unsatisfied_iff,
      Operator.accepts,
      beq_eq_false_iff_ne, ne_eq, Option.some.injEq, Bytes.order_eq_eq_iff, foldCase_true,
      foldCase_false] at h ⊢
    exact fun hst => h (congrArg _ hst)
  · rwa [compareWith_eq_of_not_strings hstrings] at h

theorem notEqual_of_exact (h : compareWith value .notEqual operand false = .unsatisfied) :
    compareWith value .notEqual operand true = .unsatisfied := by
  by_cases hstrings : ∃ s t, value = .string s ∧ operand = .string t
  · obtain ⟨s, t, rfl, rfl⟩ := hstrings
    simp only [compareWith, relate, Relation.judge_ordered, Comparison.ofBool_eq_unsatisfied_iff,
      Operator.accepts,
      bne_eq_false_iff_eq, Option.some.injEq, Bytes.order_eq_eq_iff, foldCase_true,
      foldCase_false] at h ⊢
    exact congrArg _ h
  · rwa [compareWith_eq_of_not_strings hstrings]

end FieldRules

import FieldRules.Comparison
import FieldRules.Proofs.Binary64.Rational

/-!
# Comparing numbers

Integers are compared exactly with integers, and finite values with finite values. Between an
integer and a finite value the integer is rounded first, which may make two different numbers equal
and does nothing else.

* `Operator.Relates`: the relation that an operator names.
* `Json.number?`, `Literal.number?`: the rational number that a value or a literal is.
* `roundedInteger?`: the integer that is rounded for a comparison.
* `ExactFor`: holds of answers that are those of two numbers; `SoundFor` of answers that are wrong
  only in taking them for equal.
* `compareWith_numbers`: which of the two the answers for numbers are.
-/

namespace FieldRules

open Binary64

/-- Holds of two members of an order that stand in the relation which an operator names. -/
def Operator.Relates {α : Type} [LinearOrder α] (operator : Operator) (a b : α) : Prop :=
  match operator with
  | .equal => a = b
  | .notEqual => a ≠ b
  | .less => a < b
  | .lessEqual => a ≤ b
  | .greater => b < a
  | .greaterEqual => b ≤ a

/-- An operator accepts the order of two numbers that it relates. -/
theorem Operator.accepts_compare_iff {α : Type} [LinearOrder α] (operator : Operator) (a b : α) :
    operator.accepts (some (compare a b)) = true ↔ operator.Relates a b := by
  cases operator with
  | equal => simp [accepts, Relates]
  | notEqual => simp [accepts, Relates]
  | less => simp [accepts, Relates, compare_lt_iff_lt]
  | lessEqual => simp [accepts, Relates, compare_lt_iff_lt, le_iff_lt_or_eq]
  | greater => simp [accepts, Relates, compare_gt_iff_gt]
  | greaterEqual =>
    simp only [accepts, Relates, Bool.or_eq_true, beq_iff_eq, Option.some.injEq, compare_gt_iff_gt,
      compare_eq_iff_eq, le_iff_lt_or_eq]
    rw [eq_comm]

/-! ### Answers -/

/-- Holds of answers that are those of two numbers, for every operator. -/
structure ExactFor (answer : Operator → Comparison) (a b : ℚ) : Prop where
  satisfied : ∀ operator : Operator, operator.Relates a b → answer operator = .satisfied
  unsatisfied : ∀ operator : Operator, ¬ operator.Relates a b → answer operator = .unsatisfied

/-- Holds of answers that may take two numbers for equal which are not, and are right in all else:
what is told to be less, greater or different is so, and what is less or equal, greater or equal, or
equal is told to be so. -/
structure SoundFor (answer : Operator → Comparison) (a b : ℚ) : Prop where
  decided : ∀ operator, answer operator ≠ .mismatch
  sound : ∀ operator : Operator, operator ∈ [.less, .greater, .notEqual] →
    answer operator = .satisfied →
    operator.Relates a b
  complete : ∀ operator : Operator, operator ∈ [.lessEqual, .greaterEqual, .equal] →
    operator.Relates a b →
    answer operator = .satisfied

theorem exactFor_compare (a b : ℚ) :
    ExactFor (fun operator => (Relation.ordered (some (compare a b))).judge operator) a b where
  satisfied := by
    intro operator h
    rw [Relation.judge_ordered, (operator.accepts_compare_iff a b).2 h]
    rfl
  unsatisfied := by
    intro operator h
    rw [Relation.judge_ordered, Bool.eq_false_iff.2 (mt (operator.accepts_compare_iff a b).1 h)]
    rfl

/-- An order that is right wherever it tells two numbers apart gives answers that may only take them
for equal. -/
theorem OrderSound.soundFor {order : Ordering} {a b : ℚ} (h : OrderSound order a b) :
    SoundFor (fun operator => (Relation.ordered (some order)).judge operator) a b where
  decided := by
    intro operator
    rw [Relation.judge_ordered]
    exact Comparison.ofBool_ne_mismatch _
  sound := by
    intro operator hoperator hanswer
    rw [Relation.judge_ordered, Comparison.ofBool_eq_satisfied_iff] at hanswer
    simp only [List.mem_cons, List.not_mem_nil, or_false] at hoperator
    rcases hoperator with rfl | rfl | rfl
    · exact h.lt (by simpa [Operator.accepts] using hanswer)
    · exact h.gt (by simpa [Operator.accepts] using hanswer)
    · cases order with
      | lt => exact (h.lt rfl).ne
      | eq => simp [Operator.accepts] at hanswer
      | gt => exact (h.gt rfl).ne'
  complete := by
    intro operator hoperator hrelates
    rw [Relation.judge_ordered, Comparison.ofBool_eq_satisfied_iff]
    have hlt : order = .lt → ¬ b ≤ a := fun heq => not_le.2 (h.lt heq)
    have hgt : order = .gt → ¬ a ≤ b := fun heq => not_le.2 (h.gt heq)
    simp only [List.mem_cons, List.not_mem_nil, or_false] at hoperator
    -- no order that is accepted would put the two the wrong way round
    rcases hoperator with rfl | rfl | rfl
    · cases order with
      | gt => exact absurd hrelates (hgt rfl)
      | _ => rfl
    · cases order with
      | lt => exact absurd hrelates (hlt rfl)
      | _ => rfl
    · cases order with
      | lt => exact absurd (Eq.ge hrelates) (hlt rfl)
      | eq => rfl
      | gt => exact absurd (Eq.le hrelates) (hgt rfl)

/-! ### Numbers that are compared -/

/-- The rational number that a JSON number is. -/
def Json.number? : Json → Option ℚ
  | .integer n => some n
  | .double x => x.toRat?
  | _ => none

/-- The rational number that a literal is. -/
def Literal.number? : Literal → Option ℚ
  | .integer n => some n.toInt
  | .double x => x.toRat?
  | _ => none

/-- The integer that is rounded to compare a value with a literal: one of the two is an integer and
the other is not. -/
def roundedInteger? : Json → Literal → Option Int
  | .integer m, .double _ => some m
  | .double _, .integer n => some n.toInt
  | _, _ => none

variable {value : Json} {literal : Literal} {a b : ℚ}

theorem compare_intCast (m n : Int) : compare (m : ℚ) n = compare m n := by
  rw [← cmp_eq_compare, ← cmp_eq_compare]
  exact (Int.cast_strictMono (R := ℚ)).cmp_map_eq m n

/-- Two integers, or two finite values, stand to each other as the numbers they are. -/
theorem relate_of_not_rounded (ignoreCase : Bool) (ha : value.number? = some a)
    (hb : literal.number? = some b) (h : roundedInteger? value literal = none) :
    relate ignoreCase value literal = .ordered (some (compare a b)) := by
  cases value with
  | integer m =>
    cases ha
    cases literal with
    | integer n =>
      cases hb
      rw [relate, compare_intCast]
    | double y => cases h
    | bool _ => cases hb
    | string _ => cases hb
  | double x =>
    cases literal with
    | integer n => cases h
    | double y => rw [relate, order?_eq_compare ha hb]
    | bool _ => cases hb
    | string _ => cases hb
  | _ => cases ha

/-- An integer and a finite value have an order, which is right wherever it tells the two apart, and
altogether if the integer is small. -/
theorem exists_relate_of_rounded (ignoreCase : Bool) (ha : value.number? = some a)
    (hb : literal.number? = some b) {n : Int} (h : roundedInteger? value literal = some n) :
    ∃ order, relate ignoreCase value literal = .ordered (some order) ∧ OrderSound order a b ∧
      (n.natAbs ≤ 2 ^ 53 → order = compare a b) := by
  cases value with
  | integer m =>
    cases ha
    cases literal with
    | double y =>
      obtain rfl : m = n := Option.some.inj h
      obtain ⟨order, horder, hsound⟩ := exists_orderSound m hb
      refine ⟨order, by rw [relate, horder], hsound, fun hsmall => ?_⟩
      exact Option.some.inj (horder.symm.trans (order?_ofInt_of_le hsmall hb))
    | _ => cases h
  | double x =>
    cases literal with
    | integer n =>
      cases h
      cases hb
      obtain ⟨order, horder, hsound⟩ := exists_orderSound n.toInt ha
      -- the same order, seen from the value
      have hswap : x.order? (ofInt n.toInt) = some order.swap := by
        rw [order?_swap, horder, Option.map_some]
      refine ⟨order.swap, by rw [relate, hswap], hsound.swap, fun hsmall => ?_⟩
      have hexact := Option.some.inj (horder.symm.trans (order?_ofInt_of_le hsmall ha))
      rw [hexact, ← Std.OrientedOrd.eq_swap]
    | _ => cases h
  | _ => cases ha

/-- Two numbers are compared as the rational numbers that they are if both are integers, or both are
binary64 values. If one of the two is rounded for the comparison, they may be taken for equal when
they are not, and all else is right; up to a size of `2 ^ 53` of the integer the answers are
exact. -/
theorem compareWith_numbers (ignoreCase : Bool) (ha : value.number? = some a)
    (hb : literal.number? = some b) :
    (roundedInteger? value literal = none → ExactFor (compareWith value · literal ignoreCase) a b) ∧
    ∀ n, roundedInteger? value literal = some n →
      SoundFor (compareWith value · literal ignoreCase) a b ∧
      (n.natAbs ≤ 2 ^ 53 → ExactFor (compareWith value · literal ignoreCase) a b) := by
  constructor
  · intro hnone
    unfold compareWith
    rw [relate_of_not_rounded ignoreCase ha hb hnone]
    exact exactFor_compare a b
  · intro n hn
    obtain ⟨order, hrelate, hsound, hexact⟩ := exists_relate_of_rounded ignoreCase ha hb hn
    unfold compareWith
    rw [hrelate]
    refine ⟨hsound.soundFor, fun hsmall => ?_⟩
    rw [hexact hsmall]
    exact exactFor_compare a b

/-- The integer `2 ^ 63` is greater than `-1` and nothing else, and the value `2 ^ 53` and the
integers next to it are told apart in one direction only. -/
theorem compareWith_numbers_of_large_integers :
    ExactFor (compareWith (.integer (2 ^ 63)) · (.integer (-1)) false) (2 ^ 63) (-1) ∧
    ExactFor (compareWith (.double (ofInt (2 ^ 53))) · (.integer (2 ^ 53 - 1)) false)
      (2 ^ 53) (2 ^ 53 - 1) ∧
    SoundFor (compareWith (.integer (2 ^ 53 + 1)) · (.double (ofInt (2 ^ 53))) true)
      (2 ^ 53 + 1) (2 ^ 53) ∧
    compareWith (.integer (2 ^ 53 + 1)) .equal (.double (ofInt (2 ^ 53))) true = .satisfied := by
  have hdouble : (ofInt (2 ^ 53)).toRat? = some (2 ^ 53) := by
    rw [toRat?_ofInt_of_le (by decide)]
    norm_num
  have hvalue : (Json.double (ofInt (2 ^ 53))).number? = some (2 ^ 53) := hdouble
  have hliteral : (Literal.double (ofInt (2 ^ 53))).number? = some (2 ^ 53) := hdouble
  have hinteger (n : Int) : (Json.integer n).number? = some (n : ℚ) := rfl
  have hoperand (n : Int64) : (Literal.integer n).number? = some (n.toInt : ℚ) := rfl
  have hminus : (Literal.integer (-1)).number? = some (-1) := by
    rw [hoperand, show (-1 : Int64).toInt = -1 by decide]
    norm_num
  have hbelow : (Literal.integer (2 ^ 53 - 1)).number? = some (2 ^ 53 - 1) := by
    rw [hoperand, show (2 ^ 53 - 1 : Int64).toInt = 2 ^ 53 - 1 by decide]
    norm_num
  have hlarge : (Json.integer (2 ^ 63)).number? = some (2 ^ 63) := by
    rw [hinteger]
    norm_num
  have habove : (Json.integer (2 ^ 53 + 1)).number? = some (2 ^ 53 + 1) := by
    rw [hinteger]
    norm_num
  refine ⟨(compareWith_numbers false hlarge hminus).1 rfl, ?_, ?_, ?_⟩
  · exact ((compareWith_numbers false hvalue hbelow).2 _ rfl).2 (by decide)
  · exact ((compareWith_numbers true habove hliteral).2 _ rfl).1
  · decide +kernel

end FieldRules

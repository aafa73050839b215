import FieldRules.Rule.Basic

/-!
# Comparing values with literals

* `Relation` is how a JSON value stands to a literal: two numbers or two strings have an order, any
  other pair is only the same or not.
* `relate` finds that relation.
* `Comparison` is the answer to a comparison, `compareWith` gives it.
-/

namespace FieldRules

/-- The answer to a comparison; a mismatch asks for an order that does not exist. -/
inductive Comparison
  | satisfied
  | unsatisfied
  | mismatch
  deriving DecidableEq, Repr

/-- The answer for a condition. -/
def Comparison.ofBool (holds : Bool) : Comparison :=
  if holds then .satisfied else .unsatisfied

/-- How a value stands to a literal. An order is absent if one of two numbers is none. -/
inductive Relation
  | ordered (order : Option Ordering)
  | unordered (same : Bool)
  deriving DecidableEq, Repr

namespace Relation

/-- The answer of an operator for a relation. -/
def judge (operator : Operator) : Relation → Comparison
  | .ordered order => .ofBool (operator.accepts order)
  | .unordered same =>
    if operator.isEquality then .ofBool (operator.accepts (some (if same then .eq else .lt))) else
      .mismatch

/-- The answer when the operator is not known: it holds of no order, and asks for one. -/
def judgeUnknown : Relation → Comparison
  | .ordered _ => .unsatisfied
  | .unordered _ => .mismatch

end Relation

/-- A text as it is compared: with upper-case letters folded if case is ignored. -/
def foldCase (ignoreCase : Bool) (s : Bytes) : Bytes :=
  if ignoreCase then s.map Ascii.toLower else s

/-- How a value stands to a literal. An integer is compared exactly with an integer, and as the
nearest binary64 number with any other number. -/
def relate (ignoreCase : Bool) : Json → Literal → Relation
  | .integer m, .integer n => .ordered (some (compare m n.toInt))
  | .integer m, .double y => .ordered ((Binary64.ofInt m).order? y)
  | .double x, .integer n => .ordered (x.order? (Binary64.ofInt n.toInt))
  | .double x, .double y => .ordered (x.order? y)
  | .string s, .string t => .ordered (some ((foldCase ignoreCase s).order (foldCase ignoreCase t)))
  | .bool a, .bool b => .unordered (a == b)
  | _, _ => .unordered false

/-- Compares a value with a literal. -/
def compareWith (value : Json) (operator : Operator) (operand : Literal) (ignoreCase : Bool) :
    Comparison :=
  (relate ignoreCase value operand).judge operator

@[simp] theorem Comparison.ofBool_eq_satisfied_iff {holds : Bool} :
    ofBool holds = .satisfied ↔ holds = true := by
  cases holds <;> decide

@[simp] theorem Comparison.ofBool_ne_mismatch (holds : Bool) : ofBool holds ≠ .mismatch := by
  cases holds <;> decide

@[simp] theorem Relation.judge_ordered (operator : Operator) (order : Option Ordering) :
    (Relation.ordered order).judge operator = .ofBool (operator.accepts order) := rfl

@[simp] theorem foldCase_false (s : Bytes) : foldCase false s = s := rfl

@[simp] theorem foldCase_true (s : Bytes) : foldCase true s = s.map Ascii.toLower := rfl

end FieldRules

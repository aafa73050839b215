import FieldRules.Text.Basic

/-!
# Comparison operators

* `Operator` is one of the six comparisons, `Operator.token` its spelling.
* `Operator.accepts` tells for which orders of two values a comparison holds.
* `Operator.atStart?` finds the operator that a text begins with.
-/

namespace FieldRules

/-- A comparison of two values. -/
inductive Operator
  | equal
  | notEqual
  | less
  | lessEqual
  | greater
  | greaterEqual
  deriving DecidableEq, Repr

namespace Operator

/-- The spelling of an operator. -/
def token : Operator → Bytes
  | .equal => utf8 "=="
  | .notEqual => utf8 "!="
  | .less => utf8 "<"
  | .lessEqual => utf8 "<="
  | .greater => utf8 ">"
  | .greaterEqual => utf8 ">="

/-- Holds of the two operators that ask for no order. -/
def isEquality : Operator → Bool
  | .equal => true
  | .notEqual => true
  | _ => false

/-- Tells whether a comparison holds of two values in the given order. Values without an order, as
when one is not a number, are only unequal. -/
def accepts : Operator → Option Ordering → Bool
  | .equal, order => order == some .eq
  | .notEqual, order => order != some .eq
  | .less, order => order == some .lt
  | .lessEqual, order => order == some .lt || order == some .eq
  | .greater, order => order == some .gt
  | .greaterEqual, order => order == some .gt || order == some .eq

/-- All operators, those of two bytes first, so that `<=` is not taken for `<`. -/
def all : List Operator :=
  [.equal, .notEqual, .lessEqual, .greaterEqual, .less, .greater]

theorem mem_all (operator : Operator) : operator ∈ all := by
  cases operator <;> decide

/-- The longest operator that a text begins with. -/
def atStart? (text : Bytes) : Option Operator :=
  all.find? fun operator => operator.token.isPrefixOf text

end Operator

end FieldRules

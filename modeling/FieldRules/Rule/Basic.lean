import FieldRules.Rule.Literal
import FieldRules.Rule.Operator

/-!
# Rules

* `Rule` is a field, an operator and a literal, with the text it was read from.
* `Rule.canonical` is the text that reads back as an equal rule.
-/

namespace FieldRules

/-- A rule on one field of a document. -/
structure Rule where
  field : Bytes
  operator : Operator
  operand : Literal
  /-- The trimmed text of the rule as it was written. -/
  expression : Bytes
  deriving DecidableEq

namespace Rule

/-- The text of a rule without white space between its parts. -/
def canonical (rule : Rule) : Bytes :=
  rule.field ++ rule.operator.token ++ rule.operand.text

/-- Equality of what two rules mean; how they were written does not count. -/
def sameMeaning (a b : Rule) : Bool :=
  a.field == b.field && a.operator == b.operator && a.operand.sameValue b.operand

end Rule

end FieldRules

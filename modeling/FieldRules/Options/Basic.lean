import FieldRules.Text.Basic

/-!
# Options

* `MissingPolicy` is what becomes of a rule on an absent field.
* `Options` is all that flags and ignored names say about an evaluation.
-/

namespace FieldRules

/-- What a rule on an absent field does: raise an error, pass, or fail. -/
inductive MissingPolicy
  | raise
  | pass
  | fail
  deriving DecidableEq, Repr

/-- The settings of an evaluation. -/
structure Options where
  missing : MissingPolicy := .raise
  ignoreCase : Bool := false
  /-- Holds if rules are about the number of shapes with a label instead of the fields of a
  document. -/
  countLabels : Bool := false
  /-- The annotation flags of which one has to be set for an element to be checked. -/
  selected : List Bytes := []
  /-- The names of rules to leave out, and of annotation flags that take an element out. -/
  ignores : List Bytes := []
  /-- The flags as they were given. -/
  tokens : List Bytes := []
  deriving DecidableEq, Repr

namespace Options

/-- Holds of the names to ignore. -/
def isIgnored (options : Options) (name : Bytes) : Bool :=
  options.ignores.contains name

theorem isIgnored_iff {options : Options} {name : Bytes} :
    options.isIgnored name = true ↔ name ∈ options.ignores := by
  simp [isIgnored]

end Options

end FieldRules

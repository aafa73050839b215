import FieldRules.Evaluation.Basic
import FieldRules.Proofs.Sequence

/-!
# Rules in other words

The text that a rule was read from does not count in an evaluation, nor in what an error tells.

* `Rule.Rewords`: changes of rules that keep all but their texts.
* `EvaluationError.mapRule`: an error about a rule that was changed.
* `evaluate_map_of_rewords`, `skippedElements_map_of_rewords`: what comes of changing all rules of
  an evaluation.
* `EvaluationError.contents`: what an error tells, which is the same after such a change.
-/

namespace FieldRules

/-- Holds of a change of rules that keeps all but the texts they were read from. -/
structure Rule.Rewords (f : Rule → Rule) : Prop where
  field : ∀ rule, (f rule).field = rule.field
  operator : ∀ rule, (f rule).operator = rule.operator
  operand : ∀ rule, (f rule).operand = rule.operand

/-- A fault with its rule changed. -/
def EvaluationFault.mapRule (f : Rule → Rule) : EvaluationFault → EvaluationFault
  | .fieldNotFound rule => .fieldNotFound (f rule)
  | .typeMismatch rule found => .typeMismatch (f rule) found
  | .notAnObject found => .notAnObject found
  | .unlabelled flaw => .unlabelled flaw

namespace EvaluationError

/-- An error with its rule changed. -/
def mapRule (f : Rule → Rule) (error : EvaluationError) : EvaluationError :=
  ⟨error.fault.mapRule f, error.element⟩

/-- What an error tells. -/
structure Contents where
  kind : EvaluationErrorKind
  /-- The canonical text of the rule at fault. -/
  rule : Bytes
  field : Bytes
  element : Nat
  detail : Bytes
  deriving DecidableEq

/-- What an error tells: all that its message is made of. -/
def contents (error : EvaluationError) : Contents :=
  ⟨error.fault.kind, error.fault.ruleText, error.fault.field, error.element, error.fault.detail⟩

end EvaluationError

namespace Rule.Rewords

variable {f : Rule → Rule}

theorem canonical (h : Rewords f) (rule : Rule) : (f rule).canonical = rule.canonical := by
  rw [Rule.canonical, Rule.canonical, h.field, h.operator, h.operand]

theorem contents_mapRule (h : Rewords f) (error : EvaluationError) :
    (error.mapRule f).contents = error.contents := by
  obtain ⟨fault, element⟩ := error
  cases fault <;>
    simp [EvaluationError.contents, EvaluationError.mapRule, EvaluationFault.mapRule,
      EvaluationFault.kind, EvaluationFault.ruleText, EvaluationFault.field, EvaluationFault.detail,
      EvaluationFault.rule?, h.canonical, h.field,
      h.operand]

end Rule.Rewords

/-! ### Evaluations -/

open Rule (Rewords)

variable {f : Rule → Rule} {options : Options}

variable [DoublePrinter]

theorem checkRule_of_rewords (h : Rewords f) (value : Option Json) (rule : Rule) :
    checkRule options value (f rule) = (checkRule options value rule).mapError (.mapRule f) := by
  cases value with
  | none => cases hmissing : options.missing <;> simp [checkRule, hmissing, EvaluationFault.mapRule]
  | some value =>
    cases hcompare : compareWith value rule.operator rule.operand options.ignoreCase <;>
      simp [checkRule, h.operator, h.operand, hcompare, EvaluationFault.mapRule]

/-- Rules in other words have the same violations, or the same fault in these words. -/
theorem checkRules_map_of_rewords (h : Rewords f) (subject : Bytes → Option Json) (index : Nat)
    (rules : List Rule) :
    checkRules options subject index (rules.map f) =
      (checkRules options subject index rules).mapError (.mapRule f) := by
  induction rules with
  | nil => rfl
  | cons rule rules ih =>
    rw [List.map_cons, checkRules, checkRules, checkRule_of_rewords h, ih, h.field, h.canonical]
    cases checkRules options subject index rules <;> cases options.isIgnored rule.field <;>
      cases checkRule options (subject rule.field) rule <;> rfl

theorem judge_map_of_rewords (h : Rewords f) (rules : List Rule) (index : Nat) (element : Json) :
    judge (rules.map f) options index element =
      (judge rules options index element).mapError (.mapRule f) := by
  unfold judge
  split
  · rfl
  split
  · rfl
  cases hsubject : subjects options element with
  | error fault =>
    -- what is wrong with the labels is not about a rule
    obtain ⟨flaw, rfl⟩ : ∃ flaw, fault = .unlabelled flaw := by
      unfold subjects at hsubject
      split at hsubject
      · split at hsubject <;> cases hsubject
        exact ⟨_, rfl⟩
      · cases hsubject
    rfl
  | ok subject =>
    show checkRules options subject index (rules.map f) >>= _ = _
    rw [checkRules_map_of_rewords h]
    show _ = (checkRules options subject index rules >>= _).mapError _
    cases checkRules options subject index rules <;> rfl

theorem judgeFrom_map_of_rewords (h : Rewords f) (rules : List Rule) (index : Nat)
    (elements : List Json) :
    judgeFrom (rules.map f) options index elements =
      (judgeFrom rules options index elements).mapError (.mapRule f) := by
  induction elements generalizing index with
  | nil => rfl
  | cons element elements ih =>
    rw [judgeFrom, judgeFrom, judge_map_of_rewords h, ih]
    cases judge rules options index element with
    | error fault => rfl
    | ok verdict => cases judgeFrom rules options (index + 1) elements <;> rfl

/-- Rules in other words have the same report, or the same error in these words. -/
theorem evaluate_map_of_rewords (h : Rewords f) (rules : List Rule) (document : Json) :
    evaluate (rules.map f) options document =
      (evaluate rules options document).mapError (.mapRule f) := by
  rw [evaluate, evaluate, judgeFrom_map_of_rewords h, mapError_map]

theorem skippedElements_map_of_rewords (h : Rewords f) (rules : List Rule) (document : Json) :
    skippedElements (rules.map f) options document = skippedElements rules options document := by
  unfold skippedElements
  generalize 0 = index
  induction document.elements generalizing index with
  | nil => rfl
  | cons element elements ih =>
    rw [skippedFrom, skippedFrom, judge_map_of_rewords h]
    cases judge rules options index element with
    | error fault => rfl
    | ok verdict => cases verdict <;> simp [ih]

end FieldRules

import FieldRules.Comparison
import FieldRules.Evaluation.Labels
import FieldRules.Evaluation.Selection
import FieldRules.Json.Writer

/-!
# Evaluation

* `checkRule` applies one rule to the value it is about.
* `judge` applies all rules to one element and gives its `Verdict`.
* `evaluate` judges every element of a document and sums up in a `Report`, unless some element
  cannot be judged.
* `skippedElements` are the places of the elements skipped on the way.
-/

namespace FieldRules

/-! ### Reports -/

/-- What an evaluation as a whole comes to. -/
inductive Outcome
  | passed
  | failed
  | skipped
  deriving DecidableEq, Repr

/-- The name of an outcome. -/
def Outcome.name : Outcome → Bytes
  | .passed => utf8 "passed"
  | .failed => utf8 "failed"
  | .skipped => utf8 "skipped"

/-- The name for an outcome that is none of the three. -/
def Outcome.unknownName : Bytes := utf8 "unknown"

/-- A rule that does not hold of an element. -/
structure Violation where
  /-- The canonical text of the rule. -/
  rule : Bytes
  /-- The place of the element. -/
  element : Nat
  /-- The value as JSON text, or the text for an absent field. -/
  actual : Bytes
  deriving DecidableEq, Repr

/-- What was found in a document. -/
structure Report where
  /-- The number of elements. -/
  elements : Nat
  /-- The number of elements that were skipped. -/
  skipped : Nat
  violations : List Violation
  deriving DecidableEq, Repr

namespace Report

/-- A report with violations has failed; one without has passed if nothing was skipped. -/
def outcome (report : Report) : Outcome :=
  if !report.violations.isEmpty then .failed
  else if 0 < report.skipped then .skipped
  else .passed

/-- Holds of a report that has passed. -/
def passed (report : Report) : Bool :=
  report.outcome == .passed

end Report

/-! ### Rules -/

/-- The text that stands for the value of an absent field. -/
def missingValue : Bytes := utf8 "<missing>"

variable [DoublePrinter]

/-- Applies a rule to the value it is about: nothing if it holds or is excused, the text of the
value if it does not hold. -/
def checkRule (options : Options) (value : Option Json) (rule : Rule) :
    Except EvaluationFault (Option Bytes) :=
  match value with
  | none =>
    match options.missing with
    | .raise => .error (.fieldNotFound rule)
    | .pass => .ok none
    | .fail => .ok (some missingValue)
  | some value =>
    match compareWith value rule.operator rule.operand options.ignoreCase with
    | .satisfied => .ok none
    | .unsatisfied => .ok (some value.write)
    | .mismatch => .error (.typeMismatch rule value.kind)

/-- The values that rules on an element are about, by field name: the members of the element, or the
number of shapes with a label. -/
def subjects (options : Options) (element : Json) : Except EvaluationFault (Bytes → Option Json) :=
  if options.countLabels then
    match shapeLabels element with
    | .ok labels => .ok fun name => some (.integer (labels.count name))
    | .error flaw => .error (.unlabelled flaw)
  else .ok fun name => element.find? name

/-- Applies rules in order to the element at the given place, up to the first that cannot be
applied. -/
def checkRules (options : Options) (subject : Bytes → Option Json) (index : Nat) :
    List Rule → Except EvaluationFault (List Violation)
  | [] => .ok []
  | rule :: rest => do
    let found ← if options.isIgnored rule.field then .ok none else
      checkRule options (subject rule.field) rule
    let violations ← checkRules options subject index rest
    return found.elim violations fun actual => ⟨rule.canonical, index, actual⟩ :: violations

/-! ### Elements -/

/-- What becomes of an element that can be judged. -/
inductive Verdict
  | skipped
  | checked (violations : List Violation)
  deriving DecidableEq, Repr

namespace Verdict

/-- The violations of an element. -/
def violations : Verdict → List Violation
  | .skipped => []
  | .checked violations => violations

/-- Holds of an element that is skipped. -/
def isSkipped : Verdict → Bool
  | .skipped => true
  | .checked _ => false

end Verdict

/-- Judges the element at the given place. -/
def judge (rules : List Rule) (options : Options) (index : Nat) (element : Json) :
    Except EvaluationFault Verdict :=
  if !element.isObject then .error (.notAnObject element.kind)
  else if isSkipped options element then .ok .skipped
  else do
    let subject ← subjects options element
    let violations ← checkRules options subject index rules
    return .checked violations

/-- Judges elements in order, the first of them having the given place, up to the first that cannot
be judged. -/
def judgeFrom (rules : List Rule) (options : Options) (index : Nat) :
    List Json → Except EvaluationError (List Verdict)
  | [] => .ok []
  | element :: rest => do
    let verdict ← (judge rules options index element).mapError fun fault => ⟨fault, index⟩
    let verdicts ← judgeFrom rules options (index + 1) rest
    return verdict :: verdicts

/-! ### Documents -/

/-- The report on elements with the given verdicts. -/
def Report.ofVerdicts (verdicts : List Verdict) : Report where
  elements := verdicts.length
  skipped := verdicts.countP Verdict.isSkipped
  violations := verdicts.flatMap Verdict.violations

/-- Evaluates the rules on a document: on each of its elements if it is an array, else on itself. -/
def evaluate (rules : List Rule) (options : Options) (document : Json) :
    Except EvaluationError Report :=
  (judgeFrom rules options 0 document.elements).map Report.ofVerdicts

/-- The places of the skipped elements in front of the first one that cannot be judged; the first
element has the given place. -/
def skippedFrom (rules : List Rule) (options : Options) (index : Nat) : List Json → List Nat
  | [] => []
  | element :: rest =>
    match judge rules options index element with
    | .error _ => []
    | .ok .skipped => index :: skippedFrom rules options (index + 1) rest
    | .ok (.checked _) => skippedFrom rules options (index + 1) rest

/-- The places of the elements that an evaluation skips. -/
def skippedElements (rules : List Rule) (options : Options) (document : Json) : List Nat :=
  skippedFrom rules options 0 document.elements

@[simp] theorem checkRules_nil (options : Options) (subject : Bytes → Option Json) (index : Nat) :
    checkRules options subject index [] = .ok [] := rfl

@[simp] theorem judgeFrom_nil (rules : List Rule) (options : Options) (index : Nat) :
    judgeFrom rules options index [] = .ok [] := rfl

end FieldRules

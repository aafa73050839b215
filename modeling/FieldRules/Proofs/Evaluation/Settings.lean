import FieldRules.Evaluation.Basic
import FieldRules.Proofs.Evaluation.Relevance

/-!
# Options as sets

An evaluation asks of the selected and the ignored names only whether a name is among them, so that
it does not depend on their order, nor on how often one is given.

* `Options.SameSettings`: options that set the same, with the same sets of names.
* `SameSettings.judge_eq`: such options judge every element alike.
* `SameSettings.evaluate_eq`, `SameSettings.skippedElements_eq`: they evaluate every document alike.
-/

namespace FieldRules

/-- Options that set the same. The flags that they were read from do not count, nor the order and
number of names. -/
structure Options.SameSettings (first second : Options) : Prop where
  missing : first.missing = second.missing
  ignoreCase : first.ignoreCase = second.ignoreCase
  countLabels : first.countLabels = second.countLabels
  selected : ∀ name, name ∈ first.selected ↔ name ∈ second.selected
  ignores : ∀ name, name ∈ first.ignores ↔ name ∈ second.ignores

namespace Options.SameSettings

variable {first second : Options}

theorem isIgnored_eq (h : first.SameSettings second) (name : Bytes) :
    first.isIgnored name = second.isIgnored name := by
  rw [Bool.eq_iff_iff, isIgnored_iff, isIgnored_iff]
  exact h.ignores name

theorem isSkipped_eq (h : first.SameSettings second) (element : Json) :
    isSkipped first element = isSkipped second element := by
  have hempty : first.selected ≠ [] ↔ second.selected ≠ [] := by
    simp only [ne_eq, List.eq_nil_iff_forall_not_mem, h.selected]
  rw [Bool.eq_iff_iff, isSkipped_iff, isSkipped_iff, hempty]
  simp only [h.selected, h.ignores]

theorem checkRule_eq [DoublePrinter] (h : first.SameSettings second) (value : Option Json)
    (rule : Rule) :
    checkRule first value rule = checkRule second value rule := by
  unfold checkRule
  rw [h.missing, h.ignoreCase]

theorem checkRules_eq [DoublePrinter] (h : first.SameSettings second)
    (subject : Bytes → Option Json) (index : Nat) (rules : List Rule) :
    checkRules first subject index rules = checkRules second subject index rules := by
  induction rules with
  | nil => rfl
  | cons rule rules ih => rw [checkRules, checkRules, h.isIgnored_eq, h.checkRule_eq, ih]

theorem subjects_eq (h : first.SameSettings second) (element : Json) :
    subjects first element = subjects second element := by
  unfold subjects
  rw [h.countLabels]

theorem judge_eq [DoublePrinter] (h : first.SameSettings second) (rules : List Rule) (index : Nat)
    (element : Json) :
    judge rules first index element = judge rules second index element := by
  unfold judge
  simp only [h.isSkipped_eq, h.subjects_eq, h.checkRules_eq]

theorem judgeFrom_eq [DoublePrinter] (h : first.SameSettings second) (rules : List Rule)
    (index : Nat) (elements : List Json) :
    judgeFrom rules first index elements = judgeFrom rules second index elements := by
  induction elements generalizing index with
  | nil => rfl
  | cons element elements ih => rw [judgeFrom, judgeFrom, h.judge_eq, ih]

theorem skippedFrom_eq [DoublePrinter] (h : first.SameSettings second) (rules : List Rule)
    (index : Nat) (elements : List Json) :
    skippedFrom rules first index elements = skippedFrom rules second index elements := by
  induction elements generalizing index with
  | nil => rfl
  | cons element elements ih => rw [skippedFrom, skippedFrom, h.judge_eq, ih]

theorem evaluate_eq [DoublePrinter] (h : first.SameSettings second) (rules : List Rule)
    (document : Json) :
    evaluate rules first document = evaluate rules second document := by
  rw [evaluate, evaluate, h.judgeFrom_eq]

theorem skippedElements_eq [DoublePrinter] (h : first.SameSettings second) (rules : List Rule)
    (document : Json) :
    skippedElements rules first document = skippedElements rules second document :=
  h.skippedFrom_eq rules 0 document.elements

end Options.SameSettings

end FieldRules

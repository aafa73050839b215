import FieldRules.Proofs.Document
import FieldRules.Validator.Lines

/-!
# Runs over lines

Validating and filtering go from line to line and end at the first line that cannot be dealt with.

* `validateEach_eq_error_iff`: validating ends at the first line without a report.
* `filterEach_copied_eq_error_iff`: filtering ends at the first line without a document.
-/

namespace FieldRules.Validator

variable {validator : Validator} {line : Line} {lines : List Line}

variable [DoublePrinter]

/-- Validating ends with a failure if a line has it and every line in front of that one has a
report. -/
theorem validateEach_eq_error_iff {failure : Failure} :
    (validator.validateEach lines).value = .error failure ↔
      ComesTo (fun line => ∃ report, (validator.evaluateRead line.document).value = .ok report)
        (fun line => (validator.evaluateRead line.document).value = .error failure) lines := by
  induction lines with
  | nil => simp [not_comesTo_nil]
  | cons line lines ih =>
    rw [comesTo_cons, ← ih, validateEach, Logged.value_bind]
    cases (validator.evaluateRead line.document).value with
    | error found => simp
    | ok report => simp [map_eq_error_iff]

theorem value_filterEach_cons {invert : Bool} {document : Json} (h : line.document = .ok document) :
    (validator.filterEach invert (line :: lines)).value =
      if isCopied invert (FieldRules.evaluate validator.rules validator.options document) then
        (validator.filterEach invert lines).value.copy line
      else (validator.filterEach invert lines).value := by
  rw [filterEach, h]
  rfl

theorem value_filterEach_of_error {invert : Bool} {failure : ReadFailure}
    (h : line.document = .error failure) :
    (validator.filterEach invert (line :: lines)).value = { copied := .error failure } := by
  rw [filterEach, h]
  rfl

/-- Filtering ends with a failure if a line has it and every line in front of that one holds a
document, whatever becomes of that document. -/
theorem filterEach_copied_eq_error_iff {invert : Bool} {failure : ReadFailure} :
    (validator.filterEach invert lines).value.copied = .error failure ↔
      ComesTo (fun line => ∃ document, line.document = .ok document) (fun line =>
        line.document = .error failure)
        lines := by
  induction lines with
  | nil => simp [not_comesTo_nil]
  | cons line lines ih =>
    rw [comesTo_cons, ← ih]
    cases hdocument : line.document with
    | error found =>
      rw [value_filterEach_of_error hdocument]
      simp
    | ok document =>
      -- whether the line is copied or not, the failure is that of the other lines
      rw [value_filterEach_cons hdocument]
      simp only [reduceCtorEq, Except.ok.injEq, exists_eq', true_and, false_or]
      split
      · exact map_eq_error_iff
      · exact Iff.rfl

end FieldRules.Validator

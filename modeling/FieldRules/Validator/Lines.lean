import FieldRules.Text.Lines
import FieldRules.Validator.Basic

/-!
# Documents in lines

A text may hold one document in each line; blank lines hold none.

* `Validator.validateLines` tells whether all documents pass.
* `Validator.filterLines` copies the lines whose documents pass, or those whose documents do not.
-/

namespace FieldRules

/-- The source of a document in a line. -/
def Line.source (line : Line) : Bytes :=
  utf8 "line " ++ Numeral.ofNat line.number

/-- Reads the document in a line. -/
def Line.document (line : Line) : Except ReadFailure Json :=
  parseDocument line.source line.text

namespace Validator

/-! ### Validation -/

variable [DoublePrinter]

/-- Evaluates lines in order, up to the first without a report; tells whether all documents pass. -/
def validateEach (validator : Validator) : List Line → Logged (Except Failure Bool)
  | [] => pure (.ok true)
  | line :: rest => do
    match ← validator.evaluateRead line.document with
    | .error failure => return .error failure
    | .ok report => return (← validator.validateEach rest).map (report.passed && ·)

/-- Tells whether the documents in the lines of a text pass. -/
def validateLines (validator : Validator) (text : Bytes) : Logged (Except Failure Bool) :=
  validator.validateEach (Line.ofText text)

/-! ### Filtering -/

/-- What comes of filtering: the lines copied, each with a line feed, and their number unless a line
holds no document. -/
structure Filtered where
  written : Bytes := []
  copied : Except ReadFailure Nat := .ok 0

/-- A line copied in front of what else comes of filtering. -/
def Filtered.copy (line : Line) (filtered : Filtered) : Filtered where
  written := line.text ++ Ascii.lineFeed :: filtered.written
  copied := filtered.copied.map (· + 1)

/-- Tells whether a line with the given evaluation is copied: if it passes, or when inverted if it
fails or cannot be judged. A line with skipped elements and no violation is never copied. -/
def isCopied (invert : Bool) : Except EvaluationError Report → Bool
  | .error _ => invert
  | .ok report =>
    match report.outcome with
    | .passed => !invert
    | .failed => invert
    | .skipped => false

/-- The log entries on a line with the given evaluation. -/
def lineEntries (line : Line) : Except EvaluationError Report → List Log.Entry
  | .error error => [⟨.debug, line.source ++ utf8 ": " ++ error.describe⟩]
  | .ok _ => []

/-- Filters lines in order, up to the first that holds no document. -/
def filterEach (validator : Validator) (invert : Bool) : List Line → Logged Filtered
  | [] => pure {}
  | line :: rest =>
    match line.document with
    | .error failure => pure { copied := .error failure }
    | .ok document => do
      let result ← validator.evaluate document
      (⟨(), lineEntries line result⟩ : Logged Unit)
      let filtered ← validator.filterEach invert rest
      return if isCopied invert result then filtered.copy line else filtered

/-- Filters the lines of a text. -/
def filterLines (validator : Validator) (invert : Bool) (text : Bytes) : Logged Filtered :=
  validator.filterEach invert (Line.ofText text)

@[simp] theorem validateEach_nil (validator : Validator) :
    validator.validateEach [] = pure (.ok true) := rfl

@[simp] theorem filterEach_nil (validator : Validator) (invert : Bool) :
    validator.filterEach invert [] = pure {} := rfl

end Validator

end FieldRules

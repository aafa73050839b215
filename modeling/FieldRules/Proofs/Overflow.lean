import FieldRules.Configuration.Loading
import FieldRules.Proofs.Json.Overflow
import FieldRules.Proofs.Tree.Overflow
import FieldRules.Proofs.Validator.Lines

/-!
# Runs that end with a number out of range

A number beyond the range of binary64 is no error of a document. Whatever reads a document passes it
on, and gives none of its own results.

* `FileSystem.Overflows`: a file holds a text in which the reader comes to such a number.
* `overflow_escapes_iff`: which runs end so.
-/

namespace FieldRules

variable {source text path token : Bytes} {validator : Validator} {fs : FileSystem}

/-- Holds of a path of a file whose content overflows. -/
def FileSystem.Overflows (fs : FileSystem) (path token : Bytes) : Prop :=
  ∃ content, fs.readText path = .ok content ∧ Json.Overflows content token

theorem parseDocument_eq_overflow_iff_overflows :
    parseDocument source text = .error (.overflow token) ↔ Json.Overflows text token :=
  parseDocument_eq_overflow_iff.trans Json.read_eq_outOfRange_iff

theorem readDocument_eq_overflow_iff_overflows :
    fs.readDocument path = .error (.overflow token) ↔ fs.Overflows path token := by
  simp only [readDocument_eq_overflow_iff, Json.read_eq_outOfRange_iff, FileSystem.Overflows]

/-- A text that does not overflow holds a document, or is malformed JSON. -/
theorem parseDocument_cases (source text : Bytes) :
    (∃ document, parseDocument source text = .ok document) ∨
    (∃ error, parseDocument source text = .error (.document error) ∧
      error.fault.kind = .invalidJson) ∨
    ∃ token, parseDocument source text = .error (.overflow token) := by
  rw [parseDocument_eq]
  cases Json.read text with
  | ok document => exact Or.inl ⟨document, rfl⟩
  | error error =>
    cases error with
    | malformed => exact Or.inr (Or.inl ⟨⟨.malformed, source⟩, rfl, rfl⟩)
    | outOfRange token => exact Or.inr (Or.inr ⟨token, rfl⟩)

theorem parseDocument_returns_iff :
    ((∃ document, parseDocument source text = .ok document) ∨
      ∃ error, parseDocument source text = .error (.document error) ∧
        error.fault.kind = .invalidJson) ↔
        ∀ token, ¬ Json.Overflows text token := by
  constructor
  · rintro (⟨document, hparse⟩ | ⟨error, hparse, -⟩) token hoverflow
    · rw [parseDocument_eq_overflow_iff_overflows.2 hoverflow] at hparse
      cases hparse
    · rw [parseDocument_eq_overflow_iff_overflows.2 hoverflow] at hparse
      cases hparse
  · intro hnone
    rcases parseDocument_cases source text with hdocument | hmalformed | ⟨token, hoverflow⟩
    · exact Or.inl hdocument
    · exact Or.inr hmalformed
    · exact absurd (parseDocument_eq_overflow_iff_overflows.1 hoverflow) (hnone token)

/-- A run over a configuration ends with a number out of range only while its own file is read: rule
files are not JSON. -/
theorem loadConfiguration_eq_overflow_iff :
    (fs.loadConfiguration path).value = .error (.overflow token) ↔ fs.Overflows path token := by
  rw [← readDocument_eq_overflow_iff_overflows, FileSystem.loadConfiguration]
  cases fs.readDocument path with
  | error failure => simp
  | ok document =>
    dsimp only
    cases Configuration.decode path document with
    | error error => simp
    | ok configuration =>
      simp only [Logged.value_map, mapError_eq_error_iff]
      constructor
      · rintro ⟨_, -, ⟨⟩⟩
      · rintro ⟨⟩

theorem map_passed_eq_error_iff {logged : Logged (Except Failure Report)} {failure : Failure} :
    ((·.map Report.passed) <$> logged).value = .error failure ↔ logged.value = .error failure :=
  map_eq_error_iff

theorem evaluateText_eq_overflow_iff [DoublePrinter] :
    (validator.evaluateText text).value = .error (.read (.overflow token)) ↔
      Json.Overflows text token :=
  evaluateRead_eq_overflow_iff.trans parseDocument_eq_overflow_iff_overflows

theorem evaluateFile_eq_overflow_iff [DoublePrinter] :
    (validator.evaluateFile fs path).value = .error (.read (.overflow token)) ↔
      fs.Overflows path token :=
  evaluateRead_eq_overflow_iff.trans readDocument_eq_overflow_iff_overflows

theorem validateLines_eq_overflow_iff [DoublePrinter] :
    (validator.validateLines text).value = .error (.read (.overflow token)) ↔
      ComesTo (fun line => ∃ report, (validator.evaluateRead line.document).value = .ok report)
        (fun line => Json.Overflows line.text token) (Line.ofText text) :=
  Validator.validateEach_eq_error_iff.trans <| comesTo_congr fun _ =>
    evaluateRead_eq_overflow_iff.trans parseDocument_eq_overflow_iff_overflows

theorem filterLines_copied_eq_overflow_iff [DoublePrinter] {invert : Bool} :
    (validator.filterLines invert text).value.copied = .error (.overflow token) ↔
      ComesTo (fun line => ∃ document, line.document = .ok document) (fun line =>
        Json.Overflows line.text token)
        (Line.ofText text) :=
  Validator.filterEach_copied_eq_error_iff.trans <| comesTo_congr fun _ =>
    parseDocument_eq_overflow_iff_overflows

/-- A run gives none of its results, neither a value nor an error of a document or of its
evaluation, exactly if a text that it reads has a number beyond the range of binary64 in it, at a
place that the reader comes to. Texts without such a number hold a document or are malformed JSON.
Lines are read up to the first that has no report, or no document; in a tree one file is enough,
whatever the number of threads. -/
theorem overflow_escapes_iff [DoublePrinter] (validator : Validator) (fs : FileSystem) :
    (∀ source text,
      (((∃ document, parseDocument source text = .ok document) ∨
          ∃ error, parseDocument source text = .error (.document error) ∧
            error.fault.kind = .invalidJson) ↔
        ∀ token, ¬ Json.Overflows text token) ∧
      ∀ token, parseDocument source text = .error (.overflow token) ↔ Json.Overflows text token) ∧
    (∀ text token,
      ((validator.evaluateText text).value = .error (.read (.overflow token)) ↔
        Json.Overflows text token) ∧
      ((validator.validateText text).value = .error (.read (.overflow token)) ↔
        Json.Overflows text token)) ∧
    (∀ path token,
      ((validator.evaluateFile fs path).value = .error (.read (.overflow token)) ↔
        fs.Overflows path token) ∧
      ((validator.validateFile fs path).value = .error (.read (.overflow token)) ↔
        fs.Overflows path token) ∧
      ((fs.loadConfiguration path).value = .error (.overflow token) ↔ fs.Overflows path token)) ∧
    (∀ text token,
      ((validator.validateLines text).value = .error (.read (.overflow token)) ↔
        ComesTo (fun line => ∃ report, (validator.evaluateRead line.document).value = .ok report)
          (fun line => Json.Overflows line.text token) (Line.ofText text)) ∧
      ∀ invert, (validator.filterLines invert text).value.copied = .error (.overflow token) ↔
        ComesTo (fun line => ∃ document, line.document = .ok document) (fun line =>
          Json.Overflows line.text token)
          (Line.ofText text)) ∧
    ∀ root threads cores,
      (∃ token, (validator.validateTree fs root threads cores).value = .error (.overflow token)) ↔
        ∃ paths, fs.listFiles root = .ok paths ∧ ∃ names ∈ paths, ∃ token,
          fs.Overflows (Path.below root names) token := by
  refine ⟨fun source text => ⟨parseDocument_returns_iff, fun token =>
    parseDocument_eq_overflow_iff_overflows⟩, ?_, ?_, ?_, ?_⟩
  · intro text token
    exact ⟨evaluateText_eq_overflow_iff, map_passed_eq_error_iff.trans evaluateText_eq_overflow_iff⟩
  · intro path token
    refine ⟨evaluateFile_eq_overflow_iff, ?_, loadConfiguration_eq_overflow_iff⟩
    exact map_passed_eq_error_iff.trans evaluateFile_eq_overflow_iff
  · intro text token
    exact ⟨validateLines_eq_overflow_iff, fun invert => filterLines_copied_eq_overflow_iff⟩
  · intro root threads cores
    simp only [Validator.exists_validateTree_eq_overflow_iff, evaluateFile_eq_overflow_iff]

/-- The number `1e400` alone is well-formed JSON, and there is neither a document for it nor an
error. -/
theorem not_parseDocument_returns_of_large_number :
    ¬ ((∃ document, parseDocument stringSource (utf8 "1e400") = .ok document) ∨
      ∃ error, parseDocument stringSource (utf8 "1e400") = .error (.document error) ∧
        error.fault.kind = .invalidJson) := by
  have hparse : parseDocument stringSource (utf8 "1e400") = .error (.overflow (utf8 "1e400")) := by
    decide +kernel
  simp [hparse]

end FieldRules

import FieldRules.Configuration.Loading
import FieldRules.Proofs.Document
import FieldRules.Proofs.Sequence

/-!
# One verdict for a document

A document comes as a value, as a text or in a file. It makes no difference to a validator, but for
the source that the error of a document tells.

* `ReadFailure.relocate`, `Failure.relocate`: a failure with another source.
* `evaluateRead_relocate`: the source has no part in an evaluation.
* `evaluateFile_of_content`, `validateFile_of_content`: a file against the text in it.
* `Tells`: the answer whether a document passes against the evaluation of it.
* `FileSystem.exists_readText_eq_error`: the error on a path where nothing can be opened.
* `entry_points_agree`: all ways to a verdict together.
-/

namespace FieldRules

/-! ### Sources -/

/-- A failure to read a document that comes from another source. A number out of range tells
none. -/
def ReadFailure.relocate (source : Bytes) : ReadFailure → ReadFailure
  | .document error => .document { error with source }
  | .overflow token => .overflow token

/-- A failure about a document that comes from another source. -/
def Failure.relocate (source : Bytes) : Failure → Failure
  | .read failure => .read (failure.relocate source)
  | .evaluation error => .evaluation error

theorem parseDocument_relocate (other source text : Bytes) :
    parseDocument source text =
      (parseDocument other text).mapError (ReadFailure.relocate source) := by
  rw [parseDocument_eq, parseDocument_eq]
  cases Json.read text with
  | ok document => rfl
  | error error => cases error <;> rfl

namespace Validator

variable {validator : Validator} {fs : FileSystem} {path text : Bytes}

/-- The source of a document has no part in its evaluation, nor in what is logged. -/
theorem evaluateRead_relocate [DoublePrinter] (validator : Validator) (source : Bytes)
    (document : Except ReadFailure Json) :
    validator.evaluateRead (document.mapError (ReadFailure.relocate source)) =
      (·.mapError (Failure.relocate source)) <$> validator.evaluateRead document := by
  cases document with
  | error failure => rfl
  | ok document =>
    ext1
    · simp only [mapError_ok, evaluateRead, Logged.value_map]
      cases (validator.evaluate document).value <;> rfl
    · simp only [mapError_ok, evaluateRead, Logged.entries_map]

/-! ### Files -/

theorem readDocument_of_content (h : fs.content? path = some text) :
    fs.readDocument path = parseDocument path text := by
  rw [FileSystem.readDocument_eq, FileSystem.readText_eq_ok_iff.2 h]
  rfl

theorem evaluateFile_of_content [DoublePrinter] (validator : Validator)
    (h : fs.content? path = some text) :
    validator.evaluateFile fs path =
      (·.mapError (Failure.relocate path)) <$> validator.evaluateText text := by
  rw [evaluateFile, readDocument_of_content h, parseDocument_relocate stringSource,
    evaluateRead_relocate, evaluateText]

theorem validateFile_of_content [DoublePrinter] (validator : Validator)
    (h : fs.content? path = some text) :
    validator.validateFile fs path =
      (·.mapError (Failure.relocate path)) <$> validator.validateText text := by
  rw [validateFile, evaluateFile_of_content validator h, validateText]
  ext1
  · simp only [Logged.value_map, mapError_map]
  · simp only [Logged.entries_map]

/-! ### Texts -/

theorem evaluateText_of_document [DoublePrinter] (validator : Validator) {document : Json}
    (h : parseDocument stringSource text = .ok document) :
    validator.evaluateText text = (·.mapError .evaluation) <$> validator.evaluate document := by
  rw [evaluateText, h]
  rfl

theorem validateText_of_document [DoublePrinter] (validator : Validator) {document : Json}
    (h : parseDocument stringSource text = .ok document) :
    validator.validateText text = (·.mapError .evaluation) <$> validator.validate document := by
  rw [validateText, evaluateText_of_document validator h, validate]
  ext1
  · simp only [Logged.value_map, mapError_map]
  · simp only [Logged.entries_map]

/-! ### Answers -/

/-- Holds of the answer whether a document passes if it tells what the evaluation has come to:
whether there is a report that has passed, or the same error. -/
structure Tells {ε : Type} (answer : Except ε Bool) (evaluation : Except ε Report) : Prop where
  passed : answer = .ok true ↔ ∃ report, evaluation = .ok report ∧ report.outcome = .passed
  not_passed : answer = .ok false ↔ ∃ report, evaluation = .ok report ∧ report.outcome ≠ .passed
  error : ∀ error, answer = .error error ↔ evaluation = .error error

theorem tells_map_passed {ε : Type} (evaluation : Except ε Report) :
    Tells (evaluation.map Report.passed) evaluation where
  passed := by simp [map_eq_ok_iff, Report.passed]
  not_passed := by simp [map_eq_ok_iff, Report.passed]
  error _ := map_eq_error_iff

end Validator

/-! ### Paths without a text -/

/-- A path that names nothing that can be opened has an error, by what there is instead. -/
theorem FileSystem.exists_readText_eq_error {fs : FileSystem} {path : Bytes}
    (h : fs.content? path = none) :
    ∃ error : DocumentError, fs.readText path = .error error ∧ error.source = path ∧
      (fs.find? path = none → error.fault.kind = .fileNotFound) ∧
      (fs.find? path ≠ none → error.fault.kind = .readError) := by
  rw [readText, open?, h, checkReadable]
  cases hfound : fs.find? path with
  | none => exact ⟨_, rfl, rfl, fun _ => rfl, by simp⟩
  | some node =>
    cases node with
    | file content => exact ⟨_, rfl, rfl, by simp, fun _ => rfl⟩
    | special content => exact ⟨_, rfl, rfl, by simp, fun _ => rfl⟩
    | directory entries refusal => exact ⟨_, rfl, rfl, by simp, fun _ => rfl⟩

namespace Validator

/-- Where a text cannot be read, whatever needs it fails with the same error and logs nothing. -/
theorem readers_of_error [DoublePrinter] (validator : Validator) {fs : FileSystem} {path : Bytes}
    {error : DocumentError} (h : fs.readText path = .error error) :
    fs.readDocument path = .error (.document error) ∧
    validator.evaluateFile fs path = ⟨.error (.read (.document error)), []⟩ ∧
    validator.validateFile fs path = ⟨.error (.read (.document error)), []⟩ ∧
    fs.loadRules path = ⟨.error error, []⟩ ∧
    fs.loadConfiguration path = ⟨.error (.document error), []⟩ := by
  have hdocument : fs.readDocument path = .error (.document error) := by
    rw [FileSystem.readDocument_eq, h]
    rfl
  have hevaluate : validator.evaluateFile fs path = ⟨.error (.read (.document error)), []⟩ := by
    rw [evaluateFile, hdocument]
    rfl
  refine ⟨hdocument, hevaluate, ?_, ?_, ?_⟩
  · rw [validateFile, hevaluate]
    rfl
  · rw [FileSystem.loadRules, h]
    rfl
  · rw [FileSystem.loadConfiguration, hdocument]
    rfl

/-- One verdict, whichever way a document comes. A path of a file that can be opened gives what the
text in the file gives: it is read as that text, evaluated and validated as that text, and what is
logged is the same; only the source in the error of a document is the path. A text with a document
in it gives what the document gives. Validating tells of each what evaluating it comes to. On a path
that names nothing that can be opened everything fails with the same error, which tells the path,
and nothing is logged. -/
theorem entry_points_agree [DoublePrinter] (validator : Validator) (fs : FileSystem)
    (path text : Bytes) :
    (fs.content? path = some text →
      fs.readText path = .ok text ∧
      fs.readDocument path = parseDocument path text ∧
      parseDocument path text =
        (parseDocument stringSource text).mapError (ReadFailure.relocate path) ∧
      validator.evaluateFile fs path =
        (·.mapError (Failure.relocate path)) <$> validator.evaluateText text ∧
      validator.validateFile fs path =
        (·.mapError (Failure.relocate path)) <$> validator.validateText text) ∧
    (∀ document, parseDocument stringSource text = .ok document →
      validator.evaluateText text = (·.mapError .evaluation) <$> validator.evaluate document ∧
      validator.validateText text = (·.mapError .evaluation) <$> validator.validate document) ∧
    (∀ document, Tells (validator.validate document).value (validator.evaluate document).value) ∧
    Tells (validator.validateText text).value (validator.evaluateText text).value ∧
    Tells (validator.validateFile fs path).value (validator.evaluateFile fs path).value ∧
    (fs.content? path = none →
      ∃ error : DocumentError, error.source = path ∧
        (fs.find? path = none → error.fault.kind = .fileNotFound) ∧
        (fs.find? path ≠ none → error.fault.kind = .readError) ∧
        fs.readText path = .error error ∧
        fs.readDocument path = .error (.document error) ∧
        validator.evaluateFile fs path = ⟨.error (.read (.document error)), []⟩ ∧
        validator.validateFile fs path = ⟨.error (.read (.document error)), []⟩ ∧
        fs.loadRules path = ⟨.error error, []⟩ ∧
        fs.loadConfiguration path = ⟨.error (.document error), []⟩) := by
  refine ⟨fun hcontent => ?_, fun document hdocument => ?_, fun document => ?_, ?_,
    ?_, fun hnone => ?_⟩
  · exact ⟨FileSystem.readText_eq_ok_iff.2 hcontent, readDocument_of_content hcontent,
      parseDocument_relocate .., evaluateFile_of_content validator hcontent,
      validateFile_of_content validator hcontent⟩
  · exact ⟨evaluateText_of_document validator hdocument,
      validateText_of_document validator hdocument⟩
  · exact tells_map_passed _
  · exact tells_map_passed _
  · exact tells_map_passed _
  · obtain ⟨error, htext, hsource, hnothing, hsomething⟩ :=
      FileSystem.exists_readText_eq_error hnone
    exact ⟨error, hsource, hnothing, hsomething, htext, readers_of_error validator htext⟩

/-- A file without a document fails as its text does, but for the source; a path without a file is
not found, and a regular file that cannot be opened is not read. -/
theorem entry_points_agree_of_broken_file :
    ∃ (fs : FileSystem) (error missing unopened : DocumentError),
      fs = ⟨[(utf8 "a", .file (utf8 "]")), (utf8 "c", .file none)], []⟩ ∧
      error.source = stringSource ∧
      (evaluateText ⟨[], {}⟩ (utf8 "]")).value = .error (.read (.document error)) ∧
      (evaluateFile ⟨[], {}⟩ fs (utf8 "a")).value =
        .error (.read (.document { error with source := utf8 "a" })) ∧
      missing.fault.kind = .fileNotFound ∧
      evaluateFile ⟨[], {}⟩ fs (utf8 "b") = ⟨.error (.read (.document missing)), []⟩ ∧
      unopened.fault.kind = .readError ∧
      evaluateFile ⟨[], {}⟩ fs (utf8 "c") = ⟨.error (.read (.document unopened)), []⟩ := by
  obtain ⟨fs, hfs⟩ : ∃ fs : FileSystem,
      fs = ⟨[(utf8 "a", .file (utf8 "]")), (utf8 "c", .file none)], []⟩ :=
    ⟨_, rfl⟩
  have hbroken : fs.content? (utf8 "a") = some (utf8 "]") := by
    rw [hfs]
    rfl
  have hmissing : fs.find? (utf8 "b") = none := by
    rw [hfs]
    rfl
  have hunopened : fs.find? (utf8 "c") = some (.file none) := by
    rw [hfs]
    rfl
  have htext : (evaluateText ⟨[], {}⟩ (utf8 "]")).value =
      .error (.read (.document ⟨.malformed, stringSource⟩)) := rfl
  obtain ⟨-, -, -, hevaluate, -⟩ := (entry_points_agree ⟨[], {}⟩ fs (utf8 "a") (utf8 "]")).1 hbroken
  obtain ⟨missing, -, hnotFound, -, -, -, hevaluateB, -⟩ :=
    (entry_points_agree ⟨[], {}⟩ fs (utf8 "b") []).2.2.2.2.2
      (by rw [FileSystem.content?, hmissing]; rfl)
  obtain ⟨unopened, -, -, hreadError, -, -, hevaluateC, -⟩ :=
    (entry_points_agree ⟨[], {}⟩ fs (utf8 "c") []).2.2.2.2.2
      (by rw [FileSystem.content?, hunopened]; rfl)
  refine ⟨fs, ⟨.malformed, stringSource⟩, missing, unopened, hfs, rfl, htext, ?_,
    hnotFound hmissing, hevaluateB, hreadError (by simp [hunopened]), hevaluateC⟩
  rw [hevaluate, Logged.value_map, htext]
  rfl

/-- The null device is no regular file. Still it can be opened, and what needs a text has an empty
one. -/
theorem readers_of_null_device :
    ∃ fs : FileSystem, fs = ⟨[], []⟩ ∧
      (∀ content, fs.find? (utf8 "/dev/null") ≠ some (.file content)) ∧
      fs.readText (utf8 "/dev/null") = .ok [] ∧
      (fs.loadRules (utf8 "/dev/null")).value = .ok [] ∧
      fs.readDocument (utf8 "/dev/null") = .error (.document ⟨.malformed, utf8 "/dev/null"⟩) ∧
      DocumentFault.malformed.kind = .invalidJson := by
  refine ⟨⟨[], []⟩, rfl, fun content h => ?_, rfl, rfl, rfl, rfl⟩
  cases h

end Validator

end FieldRules

import FieldRules.Proofs.Sequence
import FieldRules.Validator.Basic

/-!
# Numbers beyond the range of binary64

Where a document is read or evaluated, the run ends with a number beyond the range of binary64
exactly if the text of the document does.

* `FileSystem.readDocument_eq`: a document is read from a file as it is from the text of the file.
* `parseDocument_eq_overflow_iff`, `readDocument_eq_overflow_iff`: for a text and for a file.
* `evaluateRead_eq_overflow_iff`: for the evaluation of a document.

Whether a text has such a number can be computed (`Json.overflows`).
-/

namespace FieldRules

variable {source text path token : Bytes} {fs : FileSystem}

namespace Json

/-- Tells whether reading a text ends with a number beyond the range of binary64. -/
def overflows (text : Bytes) : Bool :=
  match read text with
  | .ok _ => false
  | .error .malformed => false
  | .error (.outOfRange _) => true

theorem overflows_eq_false_iff :
    overflows text = false ↔ ∀ token, read text ≠ .error (.outOfRange token) := by
  unfold overflows
  split <;> simp [*]

instance (text : Bytes) : Decidable (∀ token, read text ≠ .error (.outOfRange token)) :=
  decidable_of_iff _ overflows_eq_false_iff

end Json

/-- A document is read from a file as it is from the text of the file: each has checks of its own,
one reads while the file is open and the other when it has all of it. -/
theorem FileSystem.readDocument_eq (fs : FileSystem) (path : Bytes) :
    fs.readDocument path = ((fs.readText path).mapError .document >>= parseDocument path) := by
  rw [readDocument, readText]
  cases fs.checkReadable path with
  | error error => rfl
  | ok =>
    cases fs.open? path with
    | none => rfl
    | some stream =>
      show (Json.parse stream).mapError _ = parseDocument path stream.text
      rw [InputStream.parse_eq, parseDocument_eq]

theorem parseDocument_eq_overflow_iff : parseDocument source text = .error (.overflow token) ↔
    Json.read text = .error (.outOfRange token) := by
  rw [parseDocument_eq, mapError_eq_error_iff]
  constructor
  · rintro ⟨error, herror, hoverflow⟩
    cases error with
    | malformed => cases hoverflow
    | outOfRange found =>
      cases hoverflow
      exact herror
  · intro h
    exact ⟨_, h, rfl⟩

theorem readDocument_eq_overflow_iff :
    fs.readDocument path = .error (.overflow token) ↔
      ∃ content, fs.readText path = .ok content ∧
        Json.read content = .error (.outOfRange token) := by
  rw [FileSystem.readDocument_eq, bind_eq_error_iff]
  constructor
  · rintro (hfailure | ⟨content, hcontent, hparse⟩)
    · obtain ⟨_, -, ⟨⟩⟩ := mapError_eq_error_iff.1 hfailure
    · exact ⟨content, mapError_eq_ok_iff.1 hcontent, parseDocument_eq_overflow_iff.1 hparse⟩
  · rintro ⟨content, hcontent, hread⟩
    exact Or.inr ⟨content, mapError_eq_ok_iff.2 hcontent, parseDocument_eq_overflow_iff.2 hread⟩

variable [DoublePrinter]

theorem evaluateRead_eq_overflow_iff {validator : Validator} {document : Except ReadFailure Json} :
    (validator.evaluateRead document).value = .error (.read (.overflow token)) ↔
      document = .error (.overflow token) := by
  cases document with
  | error failure => simp [Validator.evaluateRead]
  | ok document =>
    simp only [Validator.evaluateRead, Logged.value_map, mapError_eq_error_iff]
    constructor
    · rintro ⟨_, -, ⟨⟩⟩
    · rintro ⟨⟩

end FieldRules

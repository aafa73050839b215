import FieldRules.Proofs.Evaluation.Composition
import FieldRules.Proofs.Validator.Filtering

/-!
# Documents in lines and in an array

Validating the documents in the lines of a text is validating one array: that of the elements of all
documents.

* `joinedElements`: the elements of the documents in some lines.
* `exists_report_of_lines`: lines with reports have a report as an array, and pass if that has
  passed.
* `evaluate_joined_of_error`: behind such lines, one that cannot be judged is the error of the
  array.
* `Failure.unplaced`, `validateLines_of_same_lines`: blank lines change nothing but the number of a
  line that is told.
* `validateLines_of_malformed`, `validateLines_of_evaluation_error`: the lines that end a run.
* `validateLines_streaming`: validating a text against validating the array.
-/

namespace FieldRules

/-! ### Elements of lines -/

/-- The elements of the document in a text, if there is one. -/
def elementsIn (text : Bytes) : List Json :=
  match Json.read text with
  | .ok document => document.elements
  | .error _ => []

/-- The elements of the documents in some parts of a text, one after the other; a blank part has
none. -/
def joinedElements (parts : List Bytes) : List Json :=
  parts.flatMap fun part => elementsIn part.trim

/-- The elements of the document in a line. -/
def Line.elements (line : Line) : List Json :=
  elementsIn line.text

theorem elementsIn_eq {text : Bytes} {document : Json} (h : Json.read text = .ok document) :
    elementsIn text = document.elements := by
  rw [elementsIn, h]

theorem joinedElements_append (parts others : List Bytes) :
    joinedElements (parts ++ others) = joinedElements parts ++ joinedElements others :=
  List.flatMap_append

theorem joinedElements_singleton (part : Bytes) : joinedElements [part] = elementsIn part.trim :=
  List.append_nil _

/-- The elements of lines are those of the parts of the text that they come from. -/
theorem flatMap_elements_numbered (first : Nat) (parts : List Bytes) :
    (Line.numbered first parts).flatMap Line.elements = joinedElements parts := by
  induction parts generalizing first with
  | nil => rfl
  | cons part parts ih =>
    have hcons : joinedElements (part :: parts) = elementsIn part.trim ++ joinedElements parts :=
      List.flatMap_cons
    by_cases hblank : part.trim = []
    · rw [Line.numbered_cons_of_blank hblank, ih, hcons, hblank]
      rfl
    · rw [Line.numbered_cons hblank, List.flatMap_cons, ih, hcons]
      rfl

/-- A failure without the place of the text that holds no document. -/
def Failure.unplaced : Failure → Failure
  | .read (.document error) => .read (.document { error with source := [] })
  | failure => failure

namespace Validator

variable {validator : Validator} {line : Line} {lines : List Line} {report : Report}

/-! ### Runs -/

theorem evaluateRead_eq_ok_iff [DoublePrinter] {document : Except ReadFailure Json} :
    (validator.evaluateRead document).value = .ok report ↔
      ∃ found, document = .ok found ∧ (validator.evaluate found).value = .ok report := by
  cases document with
  | error failure => simp [evaluateRead]
  | ok document => simp [evaluateRead, mapError_eq_ok_iff]

theorem value_validateEach_cons [DoublePrinter]
    (h : (validator.evaluateRead line.document).value = .ok report) :
    (validator.validateEach (line :: lines)).value =
      (validator.validateEach lines).value.map (report.passed && ·) := by
  rw [validateEach, Logged.value_bind, h]
  rfl

theorem value_evaluate_append [DoublePrinter] (validator : Validator) (first second : List Json) :
    (validator.evaluate (.array (first ++ second))).value =
      (validator.evaluate (.array first)).value >>= fun report =>
        ((validator.evaluate (.array second)).value.mapError
          (EvaluationError.shift first.length)).map report.append :=
  evaluate_append first second

theorem value_evaluate_elements [DoublePrinter] (validator : Validator) (document : Json) :
    (validator.evaluate (.array document.elements)).value = (validator.evaluate document).value :=
      rfl

/-- Lines with reports have one as an array, and all pass if that has passed. -/
theorem exists_report_of_lines [DoublePrinter]
    (h : ∀ line ∈ lines, ∃ report, (validator.evaluateRead line.document).value = .ok report) :
    ∃ report, (validator.evaluate (.array (lines.flatMap Line.elements))).value = .ok report ∧
      (validator.validateEach lines).value = .ok report.passed := by
  induction lines with
  | nil => exact ⟨_, rfl, rfl⟩
  | cons line lines ih =>
    obtain ⟨⟨first, hfirst⟩, hlines⟩ := List.forall_mem_cons.1 h
    obtain ⟨document, hdocument, hevaluate⟩ := evaluateRead_eq_ok_iff.1 hfirst
    obtain ⟨second, hsecond, hvalidate⟩ := ih hlines
    refine ⟨first.append second, ?_, ?_⟩
    · have helements : line.elements = document.elements :=
        elementsIn_eq (Line.document_eq_ok_iff.1 hdocument)
      rw [List.flatMap_cons, helements, value_evaluate_append, value_evaluate_elements,
        hevaluate, hsecond]
      rfl
    · rw [value_validateEach_cons hfirst, hvalidate, Report.passed_append]
      rfl

/-- Behind lines with reports, the error of a document is that of the array, about an element behind
all of theirs. -/
theorem evaluate_joined_of_error [DoublePrinter]
    (h : ∀ line ∈ lines, ∃ report, (validator.evaluateRead line.document).value = .ok report)
    {document : Json} {error : EvaluationError}
    (herror : (validator.evaluate document).value = .error error) :
    (validator.evaluate (.array (lines.flatMap Line.elements ++ document.elements))).value =
      .error (error.shift (lines.flatMap Line.elements).length) := by
  obtain ⟨report, hreport, -⟩ := exists_report_of_lines h
  rw [value_evaluate_append, hreport, value_evaluate_elements, herror]
  rfl

/-! ### Blank lines -/

theorem value_validateEach_of_error [DoublePrinter] {failure : Failure}
    (h : (validator.evaluateRead line.document).value = .error failure) :
    (validator.validateEach (line :: lines)).value = .error failure := by
  rw [validateEach, Logged.value_bind, h]
  rfl

/-- Lines with the same text are evaluated alike, but for the place in an error. -/
theorem evaluateRead_of_same_text [DoublePrinter] (validator : Validator) {other : Line}
    (h : line.text = other.text) :
    (validator.evaluateRead line.document).value.mapError Failure.unplaced =
      (validator.evaluateRead other.document).value.mapError Failure.unplaced := by
  rw [Line.document, Line.document, parseDocument_eq, parseDocument_eq, h]
  cases Json.read other.text with
  | ok document => rfl
  | error error => cases error <;> rfl

/-- Lines with the same texts are validated alike, but for the place in an error. -/
theorem validateEach_of_same_texts [DoublePrinter] {others : List Line}
    (h : lines.map Line.text = others.map Line.text) :
    (validator.validateEach lines).value.mapError Failure.unplaced =
      (validator.validateEach others).value.mapError Failure.unplaced := by
  induction lines generalizing others with
  | nil => rw [List.map_eq_nil_iff.1 h.symm]
  | cons line lines ih =>
    cases others with
    | nil => simp at h
    | cons other others =>
      obtain ⟨hline, hlines⟩ := List.cons.inj h
      have hread := validator.evaluateRead_of_same_text hline
      cases hfirst : (validator.evaluateRead line.document).value with
      | error failure =>
        cases hsecond : (validator.evaluateRead other.document).value with
        | error another =>
          rw [hfirst, hsecond] at hread
          rw [value_validateEach_of_error hfirst, value_validateEach_of_error hsecond]
          exact congrArg Except.error (Except.error.inj hread)
        | ok report => simp [hfirst, hsecond] at hread
      | ok report =>
        cases hsecond : (validator.evaluateRead other.document).value with
        | error failure => simp [hfirst, hsecond] at hread
        | ok another =>
          rw [hfirst, hsecond] at hread
          cases hread
          rw [value_validateEach_cons hfirst, value_validateEach_cons hsecond, mapError_map,
            mapError_map, ih hlines]

/-! ### The run over a text -/

/-- Holds of a part of a text that is blank or holds a document with a report. -/
def Reports [DoublePrinter] (validator : Validator) (part : Bytes) : Prop :=
  part.trim = [] ∨
    ∃ document report, Json.read part.trim = .ok document ∧
      (validator.evaluate document).value = .ok report

variable {text part : Bytes} {parts before after : List Bytes}

/-- Among parts that are blank or have reports, all lines have reports. -/
theorem forall_numbered_of_reports [DoublePrinter] (h : ∀ part ∈ parts, validator.Reports part)
    (first : Nat) :
    ∀ line ∈ Line.numbered first parts, ∃ report,
      (validator.evaluateRead line.document).value = .ok report := by
  intro line hline
  obtain ⟨part, hpart, hne, htrim⟩ := Line.exists_part_of_mem_numbered hline
  obtain ⟨document, report, hdocument, hreport⟩ := (h part hpart).resolve_left hne
  exact ⟨report, evaluateRead_eq_ok_iff.2 ⟨document, Line.document_eq_ok_iff.2 (htrim ▸ hdocument),
    hreport⟩⟩

/-- A run over a text ends at the first line without a report. -/
theorem validateLines_of_error [DoublePrinter] {failure : Failure}
    (htext : text.lines = before ++ part :: after)
    (hbefore : ∀ other ∈ before, validator.Reports other) (hpart : part.trim ≠ [])
    (hfailure : (validator.evaluateRead (⟨before.length + 1, part.trim⟩ : Line).document).value =
      .error failure) :
    (validator.validateLines text).value = .error failure :=
  validateEach_eq_error_iff.2
    ⟨_, _, _, ofText_of_lines htext hpart, forall_numbered_of_reports hbefore 1, hfailure⟩

/-- A line that holds no document holds no JSON, unless a number in it is out of range. -/
theorem read_eq_malformed (htext : text.lines = before ++ part :: after) (hpart : part.trim ≠ [])
    (hrange : ∀ line ∈ Line.ofText text, ∀ token, Json.read line.text ≠ .error (.outOfRange token))
    (hnone : ∀ document, Json.read part.trim ≠ .ok document) :
    Json.read part.trim = .error .malformed := by
  have hmem : (⟨before.length + 1, part.trim⟩ : Line) ∈ Line.ofText text := by
    rw [ofText_of_lines htext hpart]
    exact List.mem_append_right _ (List.mem_cons_self ..)
  cases hread : Json.read part.trim with
  | ok document => exact absurd hread (hnone document)
  | error fault =>
    cases fault with
    | malformed => rfl
    | outOfRange token => exact absurd hread (hrange _ hmem token)

/-- A line without JSON ends the run, with an error that tells its number. -/
theorem validateLines_of_malformed [DoublePrinter] (htext : text.lines = before ++ part :: after)
    (hbefore : ∀ other ∈ before, validator.Reports other) (hpart : part.trim ≠ [])
    (hmalformed : Json.read part.trim = .error .malformed) :
    ∃ error : DocumentError, error.fault.kind = .invalidJson ∧
      error.source = utf8 "line " ++ Numeral.ofNat (before.length + 1) ∧
      parseDocument error.source part.trim = .error (.document error) ∧
      (validator.validateLines text).value = .error (.read (.document error)) := by
  have hline : (⟨before.length + 1, part.trim⟩ : Line).document =
      .error (.document ⟨.malformed, utf8 "line " ++ Numeral.ofNat (before.length + 1)⟩) :=
    Line.document_of_malformed hmalformed
  refine ⟨⟨.malformed, utf8 "line " ++ Numeral.ofNat (before.length + 1)⟩, rfl, rfl, hline, ?_⟩
  exact validateLines_of_error htext hbefore hpart (by rw [hline]; rfl)

/-- A line that cannot be judged ends the run, with the error that the array of all elements so far
has further on. -/
theorem validateLines_of_evaluation_error [DoublePrinter]
    (htext : text.lines = before ++ part :: after)
    (hbefore : ∀ other ∈ before, validator.Reports other) (hpart : part.trim ≠ [])
    {document : Json} {error : EvaluationError} (hdocument : Json.read part.trim = .ok document)
    (herror : (validator.evaluate document).value = .error error) :
    (validator.validateLines text).value = .error (.evaluation error) ∧
      (validator.validate (.array (joinedElements (before ++ [part])))).value =
        .error (error.shift (joinedElements before).length) := by
  have hline : (⟨before.length + 1, part.trim⟩ : Line).document = .ok document :=
    Line.document_eq_ok_iff.2 hdocument
  have hevaluate : (validator.evaluateRead (⟨before.length + 1, part.trim⟩ : Line).document).value =
      .error (.evaluation error) := by
    rw [hline]
    exact mapError_eq_error_iff.2 ⟨error, herror, rfl⟩
  have hjoined : joinedElements (before ++ [part]) =
      (Line.numbered 1 before).flatMap Line.elements ++ document.elements := by
    rw [joinedElements_append, joinedElements_singleton, elementsIn_eq hdocument,
      flatMap_elements_numbered]
  have harray := evaluate_joined_of_error (forall_numbered_of_reports hbefore 1) herror
  rw [← hjoined, flatMap_elements_numbered] at harray
  exact ⟨validateLines_of_error htext hbefore hpart hevaluate, map_eq_error_iff.2 harray⟩

/-- The run over the lines of a text against the validation of an array. Take the first line that is
not blank and holds no JSON or a document that cannot be judged. The run ends with the error of that
line, whatever the lines in front of it come to: the error of its text, under its number with blank
lines counted, or that of its document; in the second case the array of all elements so far has the
same error, with a place behind the elements of the lines in front. If there is no such line, the
run tells of the text what validating tells of the array of all elements. Two texts that differ in
blank lines only, or in white space around lines, are told the same, but for the number of a line
without JSON. -/
theorem validateLines_streaming [DoublePrinter] (validator : Validator) (text : Bytes)
    (hrange : ∀ line ∈ Line.ofText text, ∀ token,
      Json.read line.text ≠ .error (.outOfRange token)) :
    (∀ before part after, text.lines = before ++ part :: after →
      (∀ other ∈ before, validator.Reports other) →
      part.trim ≠ [] →
      ((∀ document, Json.read part.trim ≠ .ok document) →
        ∃ error : DocumentError, error.fault.kind = .invalidJson ∧
          error.source = utf8 "line " ++ Numeral.ofNat (before.length + 1) ∧
          parseDocument error.source part.trim = .error (.document error) ∧
          (validator.validateLines text).value = .error (.read (.document error))) ∧
      ∀ document error, Json.read part.trim = .ok document →
        (validator.evaluate document).value = .error error →
        (validator.validateLines text).value = .error (.evaluation error) ∧
        (validator.validate (.array (joinedElements (before ++ [part])))).value =
          .error { error with element := error.element + (joinedElements before).length }) ∧
    ((∀ part ∈ text.lines, validator.Reports part) →
      ∃ passed, (validator.validateLines text).value = .ok passed ∧
        (validator.validate (.array (joinedElements text.lines))).value = .ok passed) ∧
    ∀ other, (Line.ofText other).map Line.text = (Line.ofText text).map Line.text →
      (validator.validateLines other).value.mapError Failure.unplaced =
        (validator.validateLines text).value.mapError Failure.unplaced := by
  refine ⟨fun before part after htext hbefore hpart =>
    ⟨fun hnone => ?_, fun document error hdocument herror => ?_⟩,
    fun hall => ?_, fun other hsame => validateEach_of_same_texts hsame⟩
  · exact validateLines_of_malformed htext hbefore hpart
      (read_eq_malformed htext hpart hrange hnone)
  · exact validateLines_of_evaluation_error htext hbefore hpart hdocument herror
  · obtain ⟨report, hreport, hvalidate⟩ :=
      exists_report_of_lines (forall_numbered_of_reports hall 1)
    rw [flatMap_elements_numbered] at hreport
    exact ⟨report.passed, hvalidate, map_eq_ok_iff.2 ⟨report, hreport, rfl⟩⟩

/-- Behind a document that passes, a blank line and a document that fails, the second member of the
array in the fourth line cannot be compared: it is the fourth of all elements. -/
theorem validateLines_streaming_of_failed_line :
    let validator : Validator := ⟨[⟨utf8 "n", .less, .integer 3, []⟩], { missing := .pass }⟩
    let text := utf8 "[\x7b\"n\":1\x7d]\n\n \x7b\"n\":9\x7d\n[\x7b\x7d,\x7b\"n\":null\x7d]\nnope"
    (∀ line ∈ Line.ofText text, ∀ token, Json.read line.text ≠ .error (.outOfRange token)) ∧
    ∃ error, error.element = 1 ∧ (validator.validateLines text).value = .error (.evaluation error) ∧
      (validator.validate (.array (joinedElements (text.lines.take 4)))).value =
        .error { error with element := 3 } := by
  intro validator text
  have hrange : ∀ line ∈ Line.ofText text, ∀ token,
      Json.read line.text ≠ .error (.outOfRange token) := by
    decide +kernel
  obtain ⟨front, hfront⟩ : ∃ front,
      front = [utf8 "[\x7b\"n\":1\x7d]", [], utf8 " \x7b\"n\":9\x7d"] := ⟨_, rfl⟩
  obtain ⟨part, hpart⟩ : ∃ part, part = utf8 "[\x7b\x7d,\x7b\"n\":null\x7d]" := ⟨_, rfl⟩
  have hlines : text.lines = front ++ part :: [utf8 "nope"] := by
    subst hfront hpart
    decide +kernel
  have hreports : ∀ other ∈ front, validator.Reports other := by
    subst hfront
    simp only [List.forall_mem_cons]
    exact ⟨Or.inr ⟨.array [.object [(utf8 "n", .integer 1)]], _, by decide +kernel, rfl⟩,
      Or.inl rfl, Or.inr ⟨.object [(utf8 "n", .integer 9)], _, by decide +kernel, rfl⟩, by simp⟩
  have hlength : (joinedElements front).length = 2 := by
    subst hfront
    decide +kernel
  have htake : text.lines.take 4 = front ++ [part] := by
    rw [hlines]
    subst hfront
    rfl
  have hne : part.trim ≠ [] := by
    subst hpart
    decide
  have hread : Json.read part.trim = .ok (.array [.object [], .object [(utf8 "n", .null)]]) := by
    subst hpart
    decide +kernel
  obtain ⟨hvalidate, harray⟩ :=
    ((validateLines_streaming validator text hrange).1 _ _ _ hlines hreports hne).2 _ _ hread rfl
  refine ⟨hrange, _, rfl, hvalidate, ?_⟩
  rw [htake, harray, hlength]

end Validator

end FieldRules

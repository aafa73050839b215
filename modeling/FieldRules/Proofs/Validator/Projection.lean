import FieldRules.Proofs.Text.Delivered
import FieldRules.Proofs.Validator.Streaming

/-!
# Filtering what was filtered

Whether a line is copied depends on its text alone, and a copied line is written as it was
delivered. So filtering is a projection: what a run has written is copied whole by the next one, and
not at all by the inverted one.

* `copies_of_same_text`, `copies_not`: what decides whether a line is copied.
* `filterEach_of_copies`, `filterEach_not_of_copies`: the two runs over lines that are all copied by
  the one.
* `validateEach_eq_true_iff`: lines pass exactly if a plain run copies all of them.
* `filterLines_projection`: runs over what a run has written, and validating as filtering.
-/

namespace FieldRules

namespace Validator

variable {validator : Validator} {invert : Bool} {line : Line} {lines : List Line}

/-! ### What decides whether a line is copied -/

theorem copies_of_same_text [DoublePrinter] {other : Line} (h : line.text = other.text) :
    validator.copies invert line = validator.copies invert other := by
  rw [copies, copies, Line.document, Line.document, parseDocument_eq, parseDocument_eq, h]
  cases Json.read other.text <;> rfl

theorem copies_eq_true_iff [DoublePrinter] :
    validator.copies invert line = true ↔
      ∃ document, line.document = .ok document ∧
        isCopied invert (validator.evaluate document).value = true := by
  unfold copies
  cases line.document with
  | error failure => simp
  | ok document => simp [evaluate]

theorem hasDocument_of_copies [DoublePrinter] (h : validator.copies invert line = true) :
    line.hasDocument = true := by
  obtain ⟨document, hdocument, -⟩ := copies_eq_true_iff.1 h
  simp [Line.hasDocument, hdocument]

theorem isCopied_not {result : Except EvaluationError Report} (h : isCopied invert result = true) :
    isCopied (!invert) result = false := by
  cases result with
  | error error => simpa [isCopied] using h
  | ok report => cases houtcome : report.outcome <;> simp_all [isCopied]

theorem copies_not [DoublePrinter] (h : validator.copies invert line = true) :
    validator.copies (!invert) line = false := by
  obtain ⟨document, hdocument, hcopied⟩ := copies_eq_true_iff.1 h
  unfold copies
  rw [hdocument]
  exact isCopied_not hcopied

theorem copies_false_iff [DoublePrinter] :
    validator.copies false line = true ↔
      ∃ report, (validator.evaluateRead line.document).value = .ok report ∧
        report.passed = true := by
  simp only [copies_eq_true_iff, isCopied_false_iff, HasOutcome, evaluateRead_eq_ok_iff,
    Report.passed, beq_iff_eq]
  constructor
  · rintro ⟨document, hdocument, report, hreport, hpassed⟩
    exact ⟨report, ⟨document, hdocument, hreport⟩, hpassed⟩
  · rintro ⟨report, ⟨document, hdocument, hreport⟩, hpassed⟩
    exact ⟨document, hdocument, report, hreport, hpassed⟩

/-! ### Runs over lines that are all copied -/

/-- A run over lines that all hold documents writes and counts those that it copies. -/
theorem value_filterEach [DoublePrinter] (h : ∀ line ∈ lines, line.hasDocument = true)
    (invert : Bool) :
    (validator.filterEach invert lines).value =
      ⟨Bytes.unlines ((validator.copiedOf invert lines).map Line.text),
        .ok (validator.copiedOf invert lines).length⟩ := by
  rw [← written_filterEach, ← copied_filterEach_eq_ok_iff.2 ⟨h, rfl⟩]

/-- A run over lines that it copies writes and counts all of them. -/
theorem filterEach_of_copies [DoublePrinter]
    (h : ∀ line ∈ lines, validator.copies invert line = true) :
    (validator.filterEach invert lines).value =
      ⟨Bytes.unlines (lines.map Line.text), .ok lines.length⟩ := by
  have hdocuments : ∀ line ∈ lines, line.hasDocument = true :=
    fun line hline => hasDocument_of_copies (h line hline)
  have hcopied : validator.copiedOf invert lines = lines := by
    rw [copiedOf, List.takeWhile_eq_self_iff.2 hdocuments, List.filter_eq_self.2 h]
  rw [value_filterEach hdocuments, hcopied]

/-- The inverted run over lines that a run copies writes none of them. -/
theorem filterEach_not_of_copies [DoublePrinter]
    (h : ∀ line ∈ lines, validator.copies invert line = true) :
    (validator.filterEach (!invert) lines).value = ⟨[], .ok 0⟩ := by
  have hdocuments : ∀ line ∈ lines, line.hasDocument = true :=
    fun line hline => hasDocument_of_copies (h line hline)
  have hcopied : validator.copiedOf (!invert) lines = [] := by
    rw [copiedOf, List.takeWhile_eq_self_iff.2 hdocuments, List.filter_eq_nil_iff]
    intro line hline
    simp [copies_not (h line hline)]
  rw [value_filterEach hdocuments, hcopied]
  rfl

/-- Lines pass exactly if a plain run copies all of them. -/
theorem validateEach_eq_true_iff [DoublePrinter] :
    (validator.validateEach lines).value = .ok true ↔ ∀ line ∈ lines,
      validator.copies false line = true := by
  induction lines with
  | nil => simp
  | cons line lines ih =>
    rw [List.forall_mem_cons, copies_false_iff]
    cases hread : (validator.evaluateRead line.document).value with
    | error failure =>
      rw [value_validateEach_of_error hread]
      simp
    | ok report =>
      rw [value_validateEach_cons hread, map_eq_ok_iff]
      simp only [Except.ok.injEq, exists_eq_left', Bool.and_eq_true, ← ih]
      constructor
      · rintro ⟨passed, hpassed, hreport, rfl⟩
        exact ⟨hreport, hpassed⟩
      · rintro ⟨hreport, hpassed⟩
        exact ⟨true, hpassed, hreport, rfl⟩

/-- A run has copied as many lines as there are exactly if it copies all of them. -/
theorem copied_filterEach_eq_length_iff [DoublePrinter] :
    (validator.filterEach invert lines).value.copied = .ok lines.length ↔
      ∀ line ∈ lines, validator.copies invert line = true := by
  rw [copied_filterEach_eq_ok_iff]
  constructor
  · rintro ⟨hdocuments, hlength⟩
    rw [copiedOf, List.takeWhile_eq_self_iff.2 hdocuments] at hlength
    exact List.length_filter_eq_length_iff.1 hlength.symm
  · intro h
    rw [← copied_filterEach_eq_ok_iff, filterEach_of_copies h]

/-! ### Runs over what a run has written -/

variable {text : Bytes}

theorem delivered_of_mem_copiedLines [DoublePrinter] {part : Bytes}
    (h : part ∈ (validator.copiedLines invert text).map Line.text) :
    Line.Delivered part := by
  obtain ⟨line, hline, rfl⟩ := List.mem_map.1 h
  exact Line.delivered_of_mem_ofText ((copiedOf_sublist validator invert _).subset hline)

/-- The lines of what a run has written have the texts of those that it has copied. -/
theorem map_text_ofText_written [DoublePrinter] (validator : Validator) (invert : Bool)
    (text : Bytes) :
    (Line.ofText (validator.filterLines invert text).value.written).map Line.text =
      (validator.copiedLines invert text).map Line.text := by
  rw [filterLines, written_filterEach]
  exact Line.map_text_ofText_unlines fun part hpart => delivered_of_mem_copiedLines hpart

theorem count_lineFeed_written [DoublePrinter] (validator : Validator) (invert : Bool)
    (text : Bytes) :
    (validator.filterLines invert text).value.written.count Ascii.lineFeed =
      (validator.copiedLines invert text).length := by
  rw [filterLines, written_filterEach, ← List.length_map Line.text]
  exact Bytes.count_lineFeed_unlines fun part hpart =>
    (delivered_of_mem_copiedLines hpart).lineFeed_not_mem

/-- The lines of what a run has written are copied by such a run. -/
theorem copies_of_mem_written [DoublePrinter]
    (h : line ∈ Line.ofText (validator.filterLines invert text).value.written) :
    validator.copies invert line = true := by
  have htext : line.text ∈ (validator.copiedLines invert text).map Line.text :=
    map_text_ofText_written validator invert text ▸ List.mem_map_of_mem h
  obtain ⟨other, hother, hsame⟩ := List.mem_map.1 htext
  rw [← copies_of_same_text hsame]
  exact (List.mem_filter.1 hother).2

/-- Filtering is a projection, and validating is filtering. What a run has written, to the end of a
text or up to a line that holds no document, has a line feed for each of its lines, and the run that
gets to the end counts these. A run over it copies and counts all of them and writes it again; the
inverted run copies nothing; and it is valid if the run was not inverted. A text is valid exactly if
a plain run over it gets to the end and counts all lines that are not blank. -/
theorem filterLines_projection [DoublePrinter] (validator : Validator) (text : Bytes) :
    (∀ invert,
      let written := (validator.filterLines invert text).value.written
      let count := written.count Ascii.lineFeed
      (∀ copied, (validator.filterLines invert text).value.copied = .ok copied → copied = count) ∧
      (validator.filterLines invert written).value = ⟨written, .ok count⟩ ∧
      (validator.filterLines (!invert) written).value = ⟨[], .ok 0⟩ ∧
      (invert = false → (validator.validateLines written).value = .ok true)) ∧
    ((validator.validateLines text).value = .ok true ↔
      (validator.filterLines false text).value.copied =
        .ok (text.lines.countP fun part => !part.trim.isEmpty)) := by
  refine ⟨fun invert => ?_, ?_⟩
  · intro written count
    have hcopies : ∀ line ∈ Line.ofText written, validator.copies invert line = true :=
      fun line hline => copies_of_mem_written hline
    have hcount : count = (validator.copiedLines invert text).length := count_lineFeed_written ..
    have hlines : (Line.ofText written).map Line.text =
        (validator.copiedLines invert text).map Line.text :=
      map_text_ofText_written ..
    have hlength : (Line.ofText written).length = count := by
      rw [← List.length_map Line.text, hlines, List.length_map, hcount]
    have hwritten : Bytes.unlines ((Line.ofText written).map Line.text) = written :=
      hlines ▸ (validator.written_filterEach invert (Line.ofText text)).symm
    refine ⟨fun copied hcopied => ?_, ?_, filterEach_not_of_copies hcopies, ?_⟩
    · exact (copied_filterEach_eq_ok_iff.1 hcopied).2.trans hcount.symm
    · rw [filterLines, filterEach_of_copies hcopies, hwritten, hlength]
    · rintro rfl
      exact validateEach_eq_true_iff.2 hcopies
  · rw [validateLines, validateEach_eq_true_iff, filterLines, ← copied_filterEach_eq_length_iff,
      Line.ofText_eq_numbered, Line.length_numbered]

end Validator

end FieldRules

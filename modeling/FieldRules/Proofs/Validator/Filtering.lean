import FieldRules.Proofs.Text.Lines
import FieldRules.Proofs.Text.Trim
import FieldRules.Proofs.Validator.Lines

/-!
# Filtering lines

Filtering copies lines as they are, in order, up to the first line that holds no document; which
lines these are depends on the evaluation of their documents only.

* `copiedOf`, `copiedLines`: the lines that a run copies.
* `written_filterEach`, `copied_filterEach_eq_ok_iff`: what a run writes, when it gets to the end,
  and what it counts.
* `filterLines_partition`: a run and the inverted run share the lines of a text between them.
-/

namespace FieldRules

namespace Line

/-- Holds of a line with a document. -/
def hasDocument (line : Line) : Bool :=
  match line.document with
  | .ok _ => true
  | .error _ => false

theorem document_eq_ok_iff {line : Line} {document : Json} :
    line.document = .ok document ↔ Json.read line.text = .ok document := by
  rw [Line.document, parseDocument_eq, mapError_eq_ok_iff]

theorem hasDocument_iff {line : Line} :
    line.hasDocument = true ↔ ∃ document, Json.read line.text = .ok document := by
  simp only [← document_eq_ok_iff, hasDocument]
  cases line.document <;> simp

theorem document_of_malformed {line : Line} (h : Json.read line.text = .error .malformed) :
    line.document = .error (.document ⟨.malformed, line.source⟩) := by
  rw [document, parseDocument_eq, h]
  rfl

end Line

namespace Validator

variable {validator : Validator} {invert : Bool} {line : Line} {lines : List Line}

/-! ### Copied lines -/

/-- Tells whether a line is copied if a run comes to it. -/
def copies [DoublePrinter] (validator : Validator) (invert : Bool) (line : Line) : Bool :=
  match line.document with
  | .ok document => isCopied invert (FieldRules.evaluate validator.rules validator.options document)
  | .error _ => false

/-- The lines that a run copies: it ends at the first line without a document. -/
def copiedOf [DoublePrinter] (validator : Validator) (invert : Bool) (lines : List Line) :
    List Line :=
  (lines.takeWhile Line.hasDocument).filter (validator.copies invert)

/-- The lines of a text that a run copies. -/
def copiedLines [DoublePrinter] (validator : Validator) (invert : Bool) (text : Bytes) :
    List Line :=
  validator.copiedOf invert (Line.ofText text)

@[simp] theorem copiedOf_nil [DoublePrinter] (validator : Validator) (invert : Bool) :
    validator.copiedOf invert [] = [] := rfl

theorem copiedOf_cons_of_error [DoublePrinter] {failure : ReadFailure}
    (h : line.document = .error failure) :
    validator.copiedOf invert (line :: lines) = [] := by
  simp [copiedOf, Line.hasDocument, h]

theorem copiedOf_cons_of_ok [DoublePrinter] {document : Json} (h : line.document = .ok document) :
    validator.copiedOf invert (line :: lines) =
      if isCopied invert (FieldRules.evaluate validator.rules validator.options document) then
        line :: validator.copiedOf invert lines
      else validator.copiedOf invert lines := by
  have hhas : line.hasDocument = true := by simp [Line.hasDocument, h]
  have hcopies : validator.copies invert line =
      isCopied invert (FieldRules.evaluate validator.rules validator.options document) := by
    simp [copies, h]
  rw [copiedOf, List.takeWhile_cons_of_pos hhas, List.filter_cons, hcopies]
  rfl

theorem copiedOf_sublist [DoublePrinter] (validator : Validator) (invert : Bool)
    (lines : List Line) :
    (validator.copiedOf invert lines).Sublist lines :=
  List.filter_sublist.trans (List.takeWhile_sublist _)

/-- If all lines hold documents, those are copied that are chosen. -/
theorem mem_copiedOf_iff [DoublePrinter] (h : ∀ other ∈ lines, other.hasDocument = true) :
    line ∈ validator.copiedOf invert lines ↔ line ∈ lines ∧
      validator.copies invert line = true := by
  rw [copiedOf, List.takeWhile_eq_self_iff.2 h, List.mem_filter]

/-- Lines behind one without a document are not copied, nor is that line. -/
theorem copiedOf_append [DoublePrinter] {before after : List Line}
    (hbefore : ∀ other ∈ before, other.hasDocument = true) (hline : line.hasDocument = false) :
    validator.copiedOf invert (before ++ line :: after) = validator.copiedOf invert before := by
  have htake : (before ++ line :: after).takeWhile Line.hasDocument = before := by
    rw [List.takeWhile_append_of_pos hbefore, List.takeWhile_cons_of_neg (by simp [hline]),
      List.append_nil]
  have hself : before.takeWhile Line.hasDocument = before := List.takeWhile_eq_self_iff.2 hbefore
  rw [copiedOf, copiedOf, htake, hself]

/-! ### Runs -/

/-- A run writes the lines that it copies, each with a line feed. -/
theorem written_filterEach [DoublePrinter] (validator : Validator) (invert : Bool)
    (lines : List Line) :
    (validator.filterEach invert lines).value.written =
      Bytes.unlines ((validator.copiedOf invert lines).map Line.text) := by
  induction lines with
  | nil => rfl
  | cons line lines ih =>
    cases hdocument : line.document with
    | error failure =>
      rw [value_filterEach_of_error hdocument, copiedOf_cons_of_error hdocument]
      rfl
    | ok document =>
      rw [value_filterEach_cons hdocument, copiedOf_cons_of_ok hdocument]
      split
      · rw [List.map_cons, Bytes.unlines_cons, ← ih]
        rfl
      · exact ih

/-- A run gets to the end exactly if every line holds a document, and counts the lines that it has
copied. -/
theorem copied_filterEach_eq_ok_iff [DoublePrinter] {count : Nat} :
    (validator.filterEach invert lines).value.copied = .ok count ↔
      (∀ line ∈ lines, line.hasDocument = true) ∧
        count = (validator.copiedOf invert lines).length := by
  induction lines generalizing count with
  | nil =>
    show Except.ok 0 = .ok count ↔ _
    simp [eq_comm (a := 0)]
  | cons line lines ih =>
    rw [List.forall_mem_cons]
    cases hdocument : line.document with
    | error failure =>
      rw [value_filterEach_of_error hdocument]
      simp [Line.hasDocument, hdocument]
    | ok document =>
      have hhas : line.hasDocument = true := by simp [Line.hasDocument, hdocument]
      rw [value_filterEach_cons hdocument, copiedOf_cons_of_ok hdocument]
      split
      · show (validator.filterEach invert lines).value.copied.map (· + 1) = .ok count ↔ _
        simp only [map_eq_ok_iff, ih, hhas, true_and, List.length_cons]
        grind
      · rw [ih]
        simp [hhas]

/-! ### The two runs over a text -/

/-- Holds if the evaluation of a document comes to the given outcome. -/
def HasOutcome [DoublePrinter] (validator : Validator) (document : Json) (outcome : Outcome) :
    Prop :=
  ∃ report, (validator.evaluate document).value = .ok report ∧ report.outcome = outcome

theorem isCopied_false_iff [DoublePrinter] {document : Json} :
    isCopied false (validator.evaluate document).value = true ↔
      validator.HasOutcome document .passed := by
  unfold HasOutcome
  cases (validator.evaluate document).value with
  | error error => simp [isCopied]
  | ok report => cases houtcome : report.outcome <;> simp [isCopied, houtcome]

/-- An inverted run copies the lines whose documents fail or cannot be judged. -/
theorem isCopied_true_iff [DoublePrinter] {document : Json} :
    isCopied true (validator.evaluate document).value = true ↔
      (∃ error, (validator.evaluate document).value = .error error) ∨
        validator.HasOutcome document .failed := by
  unfold HasOutcome
  cases (validator.evaluate document).value with
  | error error => simp [isCopied]
  | ok report => cases houtcome : report.outcome <;> simp [isCopied, houtcome]

/-- An evaluation has no two outcomes, and none besides an error. -/
theorem hasOutcome_cases [DoublePrinter] (validator : Validator) (document : Json) :
    (∃ error, (validator.evaluate document).value = .error error ∧ ∀ outcome,
      ¬ validator.HasOutcome document outcome) ∨
    ∃ found, (∀ error, (validator.evaluate document).value ≠ .error error) ∧
      ∀ outcome, validator.HasOutcome document outcome ↔ outcome = found := by
  unfold HasOutcome
  cases (validator.evaluate document).value with
  | error error => exact Or.inl ⟨error, rfl, by simp⟩
  | ok report => exact Or.inr ⟨report.outcome, by simp, by simp [eq_comm]⟩

section Lines

variable {text : Bytes}

/-- If every line is JSON, a run copies a line by what the evaluation of its document comes to. -/
theorem mem_copiedLines_iff [DoublePrinter]
    (hjson : ∀ other ∈ Line.ofText text, ∃ document, Json.read other.text = .ok document)
    (hline : line ∈ Line.ofText text) {document : Json}
    (hdocument : Json.read line.text = .ok document) :
    line ∈ validator.copiedLines invert text ↔
      isCopied invert (validator.evaluate document).value = true := by
  have hcopies : validator.copies invert line =
      isCopied invert (validator.evaluate document).value := by
    rw [copies, Line.document_eq_ok_iff.2 hdocument]
    rfl
  rw [copiedLines, mem_copiedOf_iff fun other hother =>
    Line.hasDocument_iff.2 (hjson other hother), hcopies]
  exact and_iff_right hline

variable {before after : List Bytes} {part : Bytes}

/-- The lines of a text, cut at one that is not blank. -/
theorem ofText_of_lines (htext : text.lines = before ++ part :: after) (hpart : part.trim ≠ []) :
    Line.ofText text = Line.numbered 1 before ++
      ⟨before.length + 1, part.trim⟩ :: Line.numbered (before.length + 2) after := by
  rw [Line.ofText_eq_numbered, htext, Line.numbered_append, Line.numbered_cons hpart,
    Nat.add_comm 1]

/-- A run over a text is over at a line that is no JSON if those in front of it are. It is the run
over these with the error of that line for its number. -/
theorem filterLines_of_malformed [DoublePrinter] (htext : text.lines = before ++ part :: after)
    (hbefore : ∀ other ∈ before, other.trim = [] ∨ ∃ document, Json.read other.trim = .ok document)
    (hpart : part.trim ≠ []) (hmalformed : Json.read part.trim = .error .malformed) :
    (validator.filterLines invert text).value.copied =
      .error (.document ⟨.malformed, utf8 "line " ++ Numeral.ofNat (before.length + 1)⟩) ∧
    (validator.filterLines invert text).value.written =
      (validator.filterLines invert (Bytes.unlines before)).value.written ∧
    ∃ count, (validator.filterLines invert (Bytes.unlines before)).value.copied = .ok count := by
  have hdocuments : ∀ line ∈ Line.numbered 1 before, line.hasDocument = true := by
    intro line hline
    obtain ⟨other, hother, hne, htrim⟩ := Line.exists_part_of_mem_numbered hline
    rw [Line.hasDocument_iff, htrim]
    exact (hbefore other hother).resolve_left hne
  have hfails : (⟨before.length + 1, part.trim⟩ : Line).document =
      .error (.document ⟨.malformed, utf8 "line " ++ Numeral.ofNat (before.length + 1)⟩) :=
    Line.document_of_malformed hmalformed
  have hfront : Line.ofText (Bytes.unlines before) = Line.numbered 1 before := by
    refine Line.ofText_unlines fun other hother => Bytes.not_mem_of_mem_splitOn (s := text) ?_
    rw [← Bytes.lines, htext]
    exact List.mem_append_left _ hother
  refine ⟨?_, ?_, ?_⟩
  · refine filterEach_copied_eq_error_iff.2 ⟨_, _, _, ofText_of_lines htext hpart, ?_, hfails⟩
    intro line hline
    obtain ⟨document, hdocument⟩ := Line.hasDocument_iff.1 (hdocuments line hline)
    exact ⟨document, Line.document_eq_ok_iff.2 hdocument⟩
  · rw [filterLines, filterLines, written_filterEach, written_filterEach, hfront,
      ofText_of_lines htext hpart, copiedOf_append hdocuments (by simp [Line.hasDocument, hfails])]
  · exact ⟨_, copied_filterEach_eq_ok_iff.2 ⟨hfront ▸ hdocuments, rfl⟩⟩

end Lines

/-- A run and the inverted run over a text in which no line has a number beyond the range of
binary64. Each writes the lines that it copies, trimmed and in order, each with a line feed, and
counts them if it gets to the end. If every line that is not blank is JSON, both get to the end, and
such a line is copied by the one run if its document passes, by the other if it fails or cannot be
judged, by neither if it has skipped elements and no violation, and never by both. Otherwise both
end with the same error, which has the number of the first line that is no JSON, blank lines
counted, and have written what they write for the text in front of that line. -/
theorem filterLines_partition [DoublePrinter] (validator : Validator) (text : Bytes)
    (hrange : ∀ line ∈ Line.ofText text, ∀ token,
      Json.read line.text ≠ .error (.outOfRange token)) :
    (∀ invert,
      (validator.filterLines invert text).value.written =
        Bytes.unlines ((validator.copiedLines invert text).map Line.text) ∧
      (validator.copiedLines invert text).Sublist (Line.ofText text) ∧
      ∀ count, (validator.filterLines invert text).value.copied = .ok count →
        count = (validator.copiedLines invert text).length) ∧
    ((∀ line ∈ Line.ofText text, ∃ document, Json.read line.text = .ok document) →
      (∀ invert, ∃ count, (validator.filterLines invert text).value.copied = .ok count) ∧
      ∀ line ∈ Line.ofText text, ∀ document, Json.read line.text = .ok document →
        (line ∈ validator.copiedLines false text ↔ validator.HasOutcome document .passed) ∧
        (line ∈ validator.copiedLines true text ↔
          (∃ error, (validator.evaluate document).value = .error error) ∨
            validator.HasOutcome document .failed) ∧
        (validator.HasOutcome document .skipped ↔
          line ∉ validator.copiedLines false text ∧ line ∉ validator.copiedLines true text) ∧
        ¬ (line ∈ validator.copiedLines false text ∧ line ∈ validator.copiedLines true text)) ∧
    ∀ before part after, text.lines = before ++ part :: after →
      (∀ other ∈ before, other.trim = [] ∨ ∃ document, Json.read other.trim = .ok document) →
      part.trim ≠ [] → (∀ document, Json.read part.trim ≠ .ok document) →
      (∃ rest, text = Bytes.unlines before ++ rest) ∧
      ∃ error : DocumentError, error.fault.kind = .invalidJson ∧
        error.source = utf8 "line " ++ Numeral.ofNat (before.length + 1) ∧
        ∀ invert,
          (validator.filterLines invert text).value.copied = .error (.document error) ∧
          (validator.filterLines invert text).value.written =
            (validator.filterLines invert (Bytes.unlines before)).value.written ∧
          ∃ count, (validator.filterLines invert (Bytes.unlines before)).value.copied =
            .ok count := by
  refine ⟨?_, ?_, ?_⟩
  · intro invert
    exact ⟨written_filterEach .., copiedOf_sublist .., fun count hcount =>
      (copied_filterEach_eq_ok_iff.1 hcount).2⟩
  · intro hjson
    refine ⟨fun invert => ?_, ?_⟩
    · have hdocuments : ∀ line ∈ Line.ofText text, line.hasDocument = true :=
        fun line hline => Line.hasDocument_iff.2 (hjson line hline)
      exact ⟨_, copied_filterEach_eq_ok_iff.2 ⟨hdocuments, rfl⟩⟩
    · intro line hline document hdocument
      have hplain : line ∈ validator.copiedLines false text ↔
          validator.HasOutcome document .passed :=
        (mem_copiedLines_iff hjson hline hdocument).trans isCopied_false_iff
      have hinverted : line ∈ validator.copiedLines true text ↔
          (∃ error, (validator.evaluate document).value = .error error) ∨
            validator.HasOutcome document .failed :=
        (mem_copiedLines_iff hjson hline hdocument).trans isCopied_true_iff
      refine ⟨hplain, hinverted, ?_⟩
      rw [hplain, hinverted]
      rcases validator.hasOutcome_cases document with ⟨error, herror, hnone⟩ |
          ⟨found, hreport, hfound⟩
      · simp [herror, hnone]
      · simp only [hreport, hfound, exists_false, false_or]
        cases found <;> simp
  · intro before part after htext hbefore hpart hnone
    refine ⟨Bytes.exists_eq_unlines_append htext,
      ⟨.malformed, utf8 "line " ++ Numeral.ofNat (before.length + 1)⟩, rfl,
      rfl, fun invert => filterLines_of_malformed htext hbefore hpart ?_⟩
    -- what is no JSON is malformed, for its numbers are in range
    have hmem : (⟨before.length + 1, part.trim⟩ : Line) ∈ Line.ofText text := by
      rw [ofText_of_lines htext hpart]
      exact List.mem_append_right _ (List.mem_cons_self ..)
    cases hread : Json.read part.trim with
    | ok document => exact absurd hread (hnone document)
    | error fault =>
      cases fault with
      | malformed => rfl
      | outOfRange token => exact absurd hread (hrange _ hmem token)

/-- Of the lines in front of the broken one, the empty array passes, the empty object is skipped and
the number cannot be judged. -/
theorem filterLines_partition_of_broken_line :
    let validator : Validator := ⟨[], { selected := [utf8 "ready"] }⟩
    let text := utf8 "[]\n\n \x7b\x7d\n7\nnope\n[]"
    (∀ line ∈ Line.ofText text, ∀ token, Json.read line.text ≠ .error (.outOfRange token)) ∧
    (∃ error : DocumentError, error.fault.kind = .invalidJson ∧ error.source = utf8 "line 5" ∧
      ∀ invert, (validator.filterLines invert text).value.copied = .error (.document error)) ∧
    (validator.filterLines false text).value.written = utf8 "[]\n" ∧
    (validator.filterLines true text).value.written = utf8 "7\n" := by
  intro validator text
  have hrange : ∀ line ∈ Line.ofText text, ∀ token,
      Json.read line.text ≠ .error (.outOfRange token) := by
    decide +kernel
  have hpartition := filterLines_partition validator text hrange
  refine ⟨hrange, ?_, ?_, ?_⟩
  · have hlines : text.lines = [utf8 "[]", [], utf8 " \x7b\x7d", utf8 "7"] ++ utf8 "nope" ::
        [utf8 "[]"] := by
      decide +kernel
    have hfront : ∀ other ∈ [utf8 "[]", [], utf8 " \x7b\x7d", utf8 "7"],
        other.trim = [] ∨ ∃ document, Json.read other.trim = .ok document := by
      simp only [List.forall_mem_cons]
      exact ⟨Or.inr ⟨.array [], by decide +kernel⟩, Or.inl rfl,
        Or.inr ⟨.object [], by decide +kernel⟩,
        Or.inr ⟨.integer 7, by decide +kernel⟩, by simp⟩
    have hnone : ∀ document, Json.read (utf8 "nope").trim ≠ .ok document := by
      intro document
      rw [show Json.read (utf8 "nope").trim = .error .malformed by decide +kernel]
      simp
    obtain ⟨-, error, hkind, hsource, herror⟩ :=
      hpartition.2.2 _ _ _ hlines hfront (by decide) hnone
    exact ⟨error, hkind, hsource, fun invert => (herror invert).1⟩
  · rw [(hpartition.1 false).1]
    decide +kernel
  · rw [(hpartition.1 true).1]
    decide +kernel

end Validator

end FieldRules

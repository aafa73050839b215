import FieldRules.Proofs.Evaluation.MissingPolicy
import FieldRules.Proofs.Json.RoundTrip
import FieldRules.Proofs.Validator.Rebuilding

/-!
# Violations as evidence

A violation can be checked with nothing but the validator and the document: its texts are read, and
what they are read as does not compare as the rule says.

* `readable_subject`: what rules are about in a document that was read.
* `Violation.Checks`: what there is to check about a violation.
* `create_violations_check`: all of it holds, for every violation that is reported.
-/

namespace FieldRules

/-! ### What rules are about -/

/-- The shapes of a readable element are not more than the bytes it may have been read from. -/
theorem Json.Readable.labelCount_le {size : Nat} {element : Json} (h : element.Readable size)
    (name : Bytes) :
    element.labelCount name ≤ size := by
  unfold labelCount
  split
  · next shapes hshapes =>
    cases h.of_find? hshapes with
    | array hlength _ => exact Nat.le_trans List.countP_le_length hlength
  · exact Nat.zero_le _

variable {options : Options}

/-- A rule on an element that was read is about a readable value: a number of labels is one of 64
bits if the text was of a length that 64 bits can count. -/
theorem readable_subject {size : Nat} {element value : Json} (h : element.Readable size)
    (hsize : options.countLabels = true → size < 2 ^ 64) {name : Bytes}
    (hvalue : subject options element name = some value) :
    value.Readable size := by
  unfold subject at hvalue
  split at hvalue
  · next hcount =>
    cases hvalue
    have hle := h.labelCount_le name
    have hlt := hsize hcount
    exact .integer (by omega) (by omega)
  · exact h.of_find? hvalue

theorem subject_eq_none_iff {element : Json} {name : Bytes} :
    subject options element name = none ↔ options.countLabels = false ∧
      element.find? name = none := by
  unfold subject
  cases options.countLabels <;> simp

/-! ### Violations -/

/-- Holds of a violation that can be checked.
* Its rule is read as `again`, which means the same as `rule`, a rule of the validator that is not
  ignored.
* Its place is that of `element`, which is not skipped.
* The field is reported as absent exactly if it is absent and absent fields fail; with label counts
  none is.
* Otherwise the text of the value is read as the value that the rule is about, and does not compare
  as the rule says. -/
structure Violation.Checks (violation : Violation) (validator : Validator) (document : Json)
    (rule again : Rule) (element : Json) : Prop where
  mem : rule ∈ validator.rules
  not_isIgnored : validator.options.isIgnored rule.field = false
  parse : Rule.parse violation.rule = .ok again
  sameMeaning : again.sameMeaning rule = true
  getElem? : document.elements[violation.element]? = some element
  not_isSkipped : isSkipped validator.options element = false
  missing_iff : violation.actual = missingValue ↔
    validator.options.countLabels = false ∧ validator.options.missing = .fail ∧
      element.find? again.field = none
  unsatisfied : violation.actual ≠ missingValue →
    ∃ value, subject validator.options element again.field = some value ∧
      parseDocument stringSource violation.actual = .ok value ∧
      compareWith value again.operator again.operand validator.options.ignoreCase = .unsatisfied

variable {element : Json} {rule : Rule}

/-- The field of a violated rule is reported as absent exactly if it is absent and absent fields
fail. -/
theorem actual_eq_missingValue_iff [DoublePrinter] (h : Violates options element rule) :
    actual options element rule = missingValue ↔
      options.countLabels = false ∧ options.missing = .fail ∧ element.find? rule.field = none := by
  obtain ⟨-, hanswer⟩ := h
  cases hsubject : subject options element rule.field with
  | none =>
    have hmissing : options.missing = .fail := by
      cases hpolicy : options.missing <;>
        simp [answer, hsubject, hpolicy, MissingPolicy.answer] at hanswer ⊢
    obtain ⟨hcount, hfind⟩ := subject_eq_none_iff.1 hsubject
    simp [actual, hsubject, hcount, hmissing, hfind]
  | some value =>
    have hpresent : ¬ (options.countLabels = false ∧ element.find? rule.field = none) := by
      rw [← subject_eq_none_iff, hsubject]
      simp
    have hwrite : actual options element rule ≠ missingValue := by
      simpa [actual, hsubject] using write_ne_missingValue value
    exact iff_of_false hwrite fun h => hpresent ⟨h.1, h.2.2⟩

/-- The text of a value that a rule is about and that violates it is read as the value. -/
theorem exists_unsatisfied_of_violates [DoublePrinter] [LawfulDoublePrinter] {size : Nat}
    (h : Violates options element rule) (hreadable : element.Readable size)
    (hsize : options.countLabels = true → size < 2 ^ 64)
    (hactual : actual options element rule ≠ missingValue) :
    ∃ value, subject options element rule.field = some value ∧
      parseDocument stringSource (actual options element rule) = .ok value ∧
      compareWith value rule.operator rule.operand options.ignoreCase = .unsatisfied := by
  obtain ⟨-, hanswer⟩ := h
  cases hsubject : subject options element rule.field with
  | none => exact absurd (by simp [actual, hsubject]) hactual
  | some value =>
    have hread : Json.read value.write = .ok value :=
      Json.read_write (readable_subject hreadable hsize hsubject)
    refine ⟨value, rfl, ?_, ?_⟩
    · simpa [actual, hsubject, parseDocument_eq, mapError_eq_ok_iff] using hread
    · simpa [answer, hsubject] using hanswer

/-- Violations are evidence. No value is written as the text for an absent field; and whatever a
validator that was built reports on a document that was read can be checked. A text in memory is
shorter than `2 ^ 64` bytes, which matters only where labels are counted: their number then is one
of 64 bits. -/
theorem create_violations_check [DoublePrinter] [LawfulDoublePrinter]
    (rules flags ignores : List Bytes) (source text : Bytes) (validator : Validator)
    (document : Json) (report : Report)
    (hvalidator : (Validator.create rules flags ignores).value = .ok validator)
    (hdocument : parseDocument source text = .ok document)
    (hsize : validator.options.countLabels = true → text.length < 2 ^ 64)
    (hreport : (validator.evaluate document).value = .ok report) :
    (∀ value : Json, value.write ≠ missingValue) ∧
    ∀ violation ∈ report.violations, ∃ rule again element,
      violation.Checks validator document rule again element := by
  refine ⟨write_ne_missingValue, fun violation hviolation => ?_⟩
  obtain ⟨-, rfl⟩ := evaluate_eq_ok_iff.1 hreport
  obtain ⟨rule, hrule, element, hplace, hskipped, hviolates, htext, hactual⟩ :=
    mem_violations_reportOn_iff.1 hviolation
  obtain ⟨expression, -, hparse⟩ := Validator.exists_parse_of_mem hvalidator hrule
  rw [parseDocument_eq, mapError_eq_ok_iff] at hdocument
  have hreadable : element.Readable text.length :=
    (Json.readable_of_read hdocument).of_mem_elements (List.mem_of_getElem? hplace)
  refine ⟨rule, rule.normal, element, hrule, hviolates.1, ?_, Rule.sameMeaning_normal hparse,
    hplace, hskipped, ?_, ?_⟩
  · rw [htext, Rule.parse_canonical hparse]
  · rw [hactual]
    exact actual_eq_missingValue_iff hviolates
  · rw [hactual]
    exact exists_unsatisfied_of_violates hviolates hreadable hsize

/-- A number above the range of signed integers against a literal beyond it, an element that is
skipped, and one without the field. -/
theorem create_violations_check_of_large_number :
    ∃ text validator document report,
      (Validator.create [utf8 " n < 1e19"] [utf8 "missing-as-fail"] [utf8 "f"]).value =
        .ok validator ∧
      parseDocument stringSource text = .ok document ∧
        (validator.evaluate document).value = .ok report ∧
      report.violations = [⟨utf8 "n<1e+19", 0, utf8 "18446744073709551615"⟩,
        ⟨utf8 "n<1e+19", 2, missingValue⟩] ∧
      ∀ violation ∈ report.violations, ∃ rule again element,
        violation.Checks validator document rule again element := by
  obtain ⟨text, htext⟩ : ∃ text, text = utf8
      "[\x7b\"n\": 18446744073709551615\x7d, \x7b\"flags\": \x7b\"f\": true\x7d\x7d, \x7b\x7d]" :=
    ⟨_, rfl⟩
  obtain ⟨validator, hparts⟩ : ∃ validator : Validator, validator =
      ⟨[⟨utf8 "n", .less, .double (Binary64.ofInt 10000000000000000000), utf8 "n < 1e19"⟩],
        { missing := .fail, ignores := [utf8 "f"], tokens := [utf8 "missing-as-fail"] }⟩ := ⟨_, rfl⟩
  obtain ⟨document, helements⟩ : ∃ document,
      document = Json.array [.object [(utf8 "n", .integer 18446744073709551615)],
      .object [(utf8 "flags", .object [(utf8 "f", .bool true)])], .object []] := ⟨_, rfl⟩
  obtain ⟨report, hcontents⟩ : ∃ report : Report, report = ⟨3, 1,
      [⟨utf8 "n<1e+19", 0, utf8 "18446744073709551615"⟩, ⟨utf8 "n<1e+19", 2, missingValue⟩]⟩ :=
    ⟨_, rfl⟩
  have hvalidator :
      (Validator.create [utf8 " n < 1e19"] [utf8 "missing-as-fail"] [utf8 "f"]).value =
      .ok validator := by
    subst hparts
    decide +kernel
  have hdocument : parseDocument stringSource text = .ok document := by
    subst htext helements
    decide +kernel
  have hreport : (validator.evaluate document).value = .ok report := by
    subst hparts helements hcontents
    decide +kernel
  have hsize : validator.options.countLabels = true → text.length < 2 ^ 64 := by simp [hparts]
  exact ⟨text, validator, document, report, hvalidator, hdocument, hreport,
    congrArg Report.violations hcontents,
    (create_violations_check _ _ _ _ text validator document report hvalidator hdocument
      hsize hreport).2⟩

end FieldRules

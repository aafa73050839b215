import FieldRules.Proofs.Evaluation.Contents
import FieldRules.Proofs.Evaluation.FirstFault
import FieldRules.Proofs.Json.RoundTrip

/-!
# Policies for absent fields

The three policies differ on absent fields only: one ends the evaluation there, one lets the rule
pass, one lets it fail.

* `Options.under`: options with another policy.
* `write_ne_missingValue`: no value is written as the text for an absent field, so that this text
  marks the absent fields.
* `evaluate_error_under`: an error stays, unless it is an absent field, under a policy that does not
  raise.
* `evaluate_ok_under`: what is reported where absent fields raise is reported under any policy.
* `evaluate_pass_eq`: passing absent fields leaves their violations out, and changes nothing else.
* `evaluate_under_policies`: the three evaluations of a document.
-/

namespace FieldRules

variable {rules : List Rule} {options : Options} {element : Json} {document : Json}
  {policy other : MissingPolicy}

/-- Options with another policy for absent fields. -/
def Options.under (options : Options) (policy : MissingPolicy) : Options :=
  { options with missing := policy }

@[simp] theorem Options.missing_under (options : Options) (policy : MissingPolicy) :
    (options.under policy).missing = policy := rfl

@[simp] theorem Options.countLabels_under (options : Options) (policy : MissingPolicy) :
    (options.under policy).countLabels = options.countLabels := rfl

@[simp] theorem isSkipped_under (options : Options) (policy : MissingPolicy) (element : Json) :
    isSkipped (options.under policy) element = isSkipped options element := rfl

@[simp] theorem subject_under (options : Options) (policy : MissingPolicy) (element : Json)
    (name : Bytes) :
    subject (options.under policy) element name = subject options element name := rfl

@[simp] theorem actual_under [DoublePrinter] (options : Options) (policy : MissingPolicy)
    (element : Json) (rule : Rule) :
    actual (options.under policy) element rule = actual options element rule := rfl

/-! ### Texts of values -/

/-- No JSON text begins with an angle bracket, as the text for an absent field does. -/
theorem write_ne_missingValue [DoublePrinter] (value : Json) : value.write ≠ missingValue := by
  obtain ⟨b, rest, htext, hb⟩ := value.exists_begins_write
  rw [htext]
  exact fun h => hb.ne (show ¬ Json.Begins 0x3C by decide) (List.cons.inj h).1

/-! ### Rules -/

/-- A rule cannot be applied to an absent field if that raises, and to a value with which it cannot
be compared. -/
theorem inapplicable_under_iff {rule : Rule} :
    Inapplicable (options.under policy) element rule ↔
      options.isIgnored rule.field = false ∧
        ((subject options element rule.field = none ∧ policy = .raise) ∨
          ∃ value, subject options element rule.field = some value ∧
            compareWith value rule.operator rule.operand options.ignoreCase = .mismatch) :=
  and_congr_right fun _ => answer_eq_mismatch_iff

/-- What cannot be applied under a policy that does not raise cannot be applied under any. -/
theorem inapplicable_of_ne_raise {rule : Rule} (hpolicy : policy ≠ .raise)
    (h : Inapplicable (options.under policy) element rule) :
    Inapplicable (options.under other) element rule := by
  rw [inapplicable_under_iff] at h ⊢
  exact ⟨h.1, Or.inr (h.2.resolve_left fun habsent => hpolicy habsent.2)⟩

theorem answer_under_of_present (policy other : MissingPolicy) {rule : Rule} {value : Json}
    (h : subject options element rule.field = some value) :
    answer (options.under policy) element rule = answer (options.under other) element rule := by
  unfold answer
  rw [subject_under, subject_under, h]
  rfl

/-! ### Elements -/

theorem structurallyWrong_of_ne_raise (hpolicy : policy ≠ .raise)
    (h : StructurallyWrong rules (options.under policy) element) :
    StructurallyWrong rules (options.under other) element := by
  rcases h with hobject | hlabels | ⟨hskipped, rule, hrule, hinapplicable⟩
  · exact Or.inl hobject
  · exact Or.inr (Or.inl hlabels)
  · exact Or.inr (Or.inr ⟨hskipped, rule, hrule, inapplicable_of_ne_raise hpolicy hinapplicable⟩)

theorem isChecked_under (h : IsChecked (options.under policy) element) :
    IsChecked (options.under other) element :=
  ⟨h.isObject, h.not_isSkipped, h.isAnnotation⟩

theorem comesFirst_under {rule : Rule} (hother : other ≠ .raise)
    (h : ComesFirst rules (options.under policy) element rule) :
    ComesFirst rules (options.under other) element rule := by
  obtain ⟨earlier, _, later, hrules, hearlier, rfl⟩ := h
  exact ⟨earlier, _, later, hrules, fun rule hrule hinapplicable =>
    hearlier rule hrule (inapplicable_of_ne_raise hother hinapplicable), rfl⟩

theorem hasFault_under {fault : EvaluationFault} (hother : other ≠ .raise)
    (hkind : fault.kind ≠ .fieldNotFound)
    (h : HasFault rules (options.under policy) element fault) :
    HasFault rules (options.under other) element fault := by
  cases h with
  | notAnObject hobject => exact .notAnObject hobject
  | unlabelled hobject hskipped hcount hlabels => exact .unlabelled hobject hskipped hcount hlabels
  | fieldNotFound hchecked hfirst hcounts habsent hraise => exact absurd rfl hkind
  | typeMismatch hchecked hfirst hcounts hpresent hcompare =>
    exact .typeMismatch (isChecked_under hchecked) (comesFirst_under hother hfirst) hcounts
      hpresent hcompare

theorem kind_ne_of_ne_raise {fault : EvaluationFault} (hpolicy : policy ≠ .raise)
    (h : HasFault rules (options.under policy) element fault) : fault.kind ≠ .fieldNotFound := by
  cases h with
  | fieldNotFound hchecked hfirst hcounts habsent hraise => exact absurd hraise hpolicy
  | _ => simp [EvaluationFault.kind]

/-- If no rule that counts is on an absent field, the violations are the same under all policies. -/
theorem violationsOf_under [DoublePrinter]
    (h : ∀ rule ∈ rules, ¬ Inapplicable (options.under .raise) element rule) (index : Nat) :
    violationsOf rules (options.under policy) index element =
      violationsOf rules (options.under .raise) index element := by
  unfold violationsOf
  congr 1
  refine List.filter_congr fun rule hrule => ?_
  rw [decide_eq_decide]
  refine and_congr_right fun hcounts => ?_
  cases hsubject : subject options element rule.field with
  | none => exact absurd (inapplicable_under_iff.2 ⟨hcounts, Or.inl ⟨hsubject, rfl⟩⟩) (h rule hrule)
  | some value => rw [answer_under_of_present policy .raise hsubject]

/-- A rule is violated with absent fields passing if it is with absent fields failing, and not by
one. -/
theorem violates_pass_iff [DoublePrinter] {rule : Rule} :
    Violates (options.under .pass) element rule ↔
      Violates (options.under .fail) element rule ∧ actual options element rule ≠ missingValue := by
  unfold Violates
  rw [and_assoc]
  refine and_congr_right fun _ => ?_
  cases hsubject : subject options element rule.field with
  | none => simp [answer, actual, hsubject, MissingPolicy.answer]
  | some value =>
    rw [answer_under_of_present .pass .fail hsubject]
    simp [actual, hsubject, write_ne_missingValue]

theorem violationsOf_pass [DoublePrinter] (index : Nat) (element : Json) :
    violationsOf rules (options.under .pass) index element =
      (violationsOf rules (options.under .fail) index element).filter fun violation =>
        violation.actual ≠ missingValue := by
  unfold violationsOf
  rw [List.filter_map, List.filter_filter]
  congr 1
  refine List.filter_congr fun rule _ => ?_
  simp only [violates_pass_iff, Function.comp_apply, actual_under, ne_eq, decide_not,
    Bool.decide_and, Bool.and_comm]

/-- An element that is wrong only where absent fields raise has a violation by one where they fail.
-/
theorem violates_of_wrong [DoublePrinter]
    (hwell : ¬ StructurallyWrong rules (options.under .fail) element)
    (hwrong : StructurallyWrong rules (options.under .raise) element) :
    isSkipped options element = false ∧
      ∃ rule ∈ rules, Violates (options.under .fail) element rule ∧
        actual options element rule = missingValue := by
  rcases hwrong with hobject | hlabels | ⟨hskipped, rule, hrule, hinapplicable⟩
  · exact absurd (Or.inl hobject) hwell
  · exact absurd (Or.inr (Or.inl hlabels)) hwell
  · obtain ⟨hcounts, ⟨habsent, -⟩ | hclash⟩ := inapplicable_under_iff.1 hinapplicable
    · exact ⟨hskipped, rule, hrule,
        ⟨hcounts, by simp [answer, habsent, MissingPolicy.answer]⟩, by simp [actual, habsent]⟩
    · have hinapplicable : Inapplicable (options.under .fail) element rule :=
        inapplicable_under_iff.2 ⟨hcounts, Or.inr hclash⟩
      exact absurd (Or.inr (Or.inr ⟨hskipped, rule, hrule, hinapplicable⟩)) hwell

/-! ### Documents -/

variable {report : Report} {error : EvaluationError}

theorem evaluate_error_under [DoublePrinter] (hother : other ≠ .raise)
    (hkind : error.fault.kind ≠ .fieldNotFound)
    (h : evaluate rules (options.under policy) document = .error error) :
    evaluate rules (options.under other) document = .error error := by
  obtain ⟨before, element, after, helements, hplace, hbefore, hhas⟩ := evaluate_eq_error_iff.1 h
  have hbefore_other : ∀ earlier ∈ before,
      ¬ StructurallyWrong rules (options.under other) earlier :=
    fun earlier hearlier hwrong =>
      hbefore earlier hearlier (structurallyWrong_of_ne_raise hother hwrong)
  exact evaluate_eq_error_iff.2
    ⟨before, element, after, helements, hplace, hbefore_other, hasFault_under hother hkind hhas⟩

theorem kind_ne_of_evaluate [DoublePrinter] (hpolicy : policy ≠ .raise)
    (h : evaluate rules (options.under policy) document = .error error) :
    error.fault.kind ≠ .fieldNotFound := by
  obtain ⟨before, element, after, -, -, -, hhas⟩ := evaluate_eq_error_iff.1 h
  exact kind_ne_of_ne_raise hpolicy hhas

theorem evaluate_ok_under [DoublePrinter] (policy : MissingPolicy)
    (h : evaluate rules (options.under .raise) document = .ok report) :
    evaluate rules (options.under policy) document = .ok report := by
  by_cases hpolicy : policy = .raise
  · rwa [hpolicy]
  obtain ⟨hwell, rfl⟩ := evaluate_eq_ok_iff.1 h
  refine evaluate_eq_ok_iff.2
    ⟨fun element helement hwrong =>
      hwell element helement (structurallyWrong_of_ne_raise hpolicy hwrong), ?_⟩
  refine reportOn_congr fun element helement index => ?_
  unfold verdictOf
  rw [isSkipped_under, isSkipped_under]
  cases hskipped : isSkipped options element with
  | true => rfl
  | false =>
    have happlicable : ∀ rule ∈ rules, ¬ Inapplicable (options.under .raise) element rule := by
      intro rule hrule hinapplicable
      exact hwell element helement (Or.inr (Or.inr ⟨hskipped, rule, hrule, hinapplicable⟩))
    exact congrArg Verdict.checked (violationsOf_under happlicable index).symm

/-- A report without the violations by absent fields. -/
def Report.withoutMissing (report : Report) : Report :=
  { report with violations := report.violations.filter fun violation =>
    violation.actual ≠ missingValue }

theorem withoutMissing_reportOn [DoublePrinter] (rules : List Rule) (options : Options)
    (document : Json) :
    (reportOn rules (options.under .fail) document).withoutMissing =
      reportOn rules (options.under .pass) document := by
  have helements : (reportOn rules (options.under .fail) document).elements =
      (reportOn rules (options.under .pass) document).elements := by
    rw [elements_reportOn, elements_reportOn]
  have hskipped : (reportOn rules (options.under .fail) document).skipped =
      (reportOn rules (options.under .pass) document).skipped := by
    rw [skipped_reportOn, skipped_reportOn]
    rfl
  have hviolations : (reportOn rules (options.under .fail) document).violations.filter
      (fun violation => violation.actual ≠ missingValue) =
        (reportOn rules (options.under .pass) document).violations := by
    rw [violations_reportOn, violations_reportOn, List.filter_flatMap]
    congr 1
    funext place
    rw [violationsOf_pass, isSkipped_under, isSkipped_under]
    split <;> rfl
  rw [Report.withoutMissing, helements, hskipped, hviolations]

/-- Where absent fields pass, the result is that where they fail, without the violations by them. -/
theorem evaluate_pass_eq [DoublePrinter] (rules : List Rule) (options : Options) (document : Json) :
    evaluate rules (options.under .pass) document =
      (evaluate rules (options.under .fail) document).map Report.withoutMissing := by
  cases hfail : evaluate rules (options.under .fail) document with
  | error error =>
      exact evaluate_error_under (by decide) (kind_ne_of_evaluate (by decide) hfail) hfail
  | ok report =>
    obtain ⟨hwell, rfl⟩ := evaluate_eq_ok_iff.1 hfail
    refine evaluate_eq_ok_iff.2 ⟨?_, withoutMissing_reportOn rules options document⟩
    exact fun element helement hwrong =>
      hwell element helement (structurallyWrong_of_ne_raise (by decide) hwrong)

/-- An element of a document that is wrong only where absent fields raise has a violation by one
where they fail. -/
theorem exists_missing_of_wrong [DoublePrinter] (helement : element ∈ document.elements)
    (hwell : ¬ StructurallyWrong rules (options.under .fail) element)
    (hwrong : StructurallyWrong rules (options.under .raise) element) :
    ∃ violation ∈ (reportOn rules (options.under .fail) document).violations,
      violation.actual = missingValue := by
  obtain ⟨hskipped, rule, hrule, hviolates, hactual⟩ := violates_of_wrong hwell hwrong
  obtain ⟨index, hplace⟩ : ∃ index, document.elements[index]? = some element :=
    List.getElem?_of_mem helement
  exact ⟨⟨rule.canonical, index, actual options element rule⟩,
    mem_violations_reportOn_iff.2 ⟨rule, hrule, element, hplace, hskipped, hviolates,
      rfl, rfl⟩, hactual⟩

/-- If absent fields fail and no field is reported as absent, then raising makes no difference. -/
theorem evaluate_raise_of_fail [DoublePrinter]
    (h : evaluate rules (options.under .fail) document = .ok report)
    (hpresent : ∀ violation ∈ report.violations, violation.actual ≠ missingValue) :
    evaluate rules (options.under .raise) document = .ok report := by
  obtain ⟨hwell, rfl⟩ := evaluate_eq_ok_iff.1 h
  have hraise : ∀ element ∈ document.elements,
      ¬ StructurallyWrong rules (options.under .raise) element := by
    intro element helement hwrong
    obtain ⟨violation, hviolation, hactual⟩ :=
      exists_missing_of_wrong helement (hwell element helement) hwrong
    exact hpresent violation hviolation hactual
  have hreport := evaluate_eq_ok hraise
  rw [evaluate_ok_under .fail hreport] at h
  exact hreport.trans h

theorem kind_ne_of_countLabels [DoublePrinter] (hcount : options.countLabels = true)
    (h : evaluate rules (options.under policy) document = .error error) :
    error.fault.kind ≠ .fieldNotFound := by
  obtain ⟨before, element, after, -, -, -, hhas⟩ := evaluate_eq_error_iff.1 h
  generalize error.fault = fault at hhas
  cases hhas with
  | fieldNotFound hchecked hfirst hcounts habsent hraise => simp [subject, hcount] at habsent
  | _ => simp [EvaluationFault.kind]

theorem evaluate_under_of_countLabels [DoublePrinter] (hcount : options.countLabels = true)
    (hpolicy : policy ≠ .raise) :
    evaluate rules (options.under policy) document =
      evaluate rules (options.under .raise) document := by
  cases hraise : evaluate rules (options.under .raise) document with
  | error error => exact evaluate_error_under hpolicy (kind_ne_of_countLabels hcount hraise) hraise
  | ok report => exact evaluate_ok_under policy hraise

/-- The evaluations of a document under the three policies for absent fields.
* What is reported where they raise is reported under all policies.
* Where they pass and where they fail there are the same errors, and raising then has one about the
  same element or an earlier one.
* An error other than an absent field is the error under all policies.
* The reports where they pass and where they fail have the same counts, and the violations in the
  first are those in the second without the ones by absent fields, in order.
* Where they raise there is a report if there is one where they fail, with no violation by an absent
  field.
* With label counts the policies make no difference. -/
theorem evaluate_under_policies [DoublePrinter] (rules : List Rule) (options : Options)
    (document : Json) :
    (∀ report, evaluate rules (options.under .raise) document = .ok report →
      evaluate rules (options.under .pass) document = .ok report ∧
      evaluate rules (options.under .fail) document = .ok report) ∧
    (∀ error, evaluate rules (options.under .pass) document = .error error ↔
      evaluate rules (options.under .fail) document = .error error) ∧
    (∀ error, evaluate rules (options.under .pass) document = .error error →
      ∃ first, evaluate rules (options.under .raise) document = .error first ∧
        first.element ≤ error.element) ∧
    (∀ error, evaluate rules (options.under .raise) document = .error error →
      error.fault.kind ≠ .fieldNotFound →
      evaluate rules (options.under .pass) document = .error error ∧
      evaluate rules (options.under .fail) document = .error error) ∧
    (∀ passing failing, evaluate rules (options.under .pass) document = .ok passing →
      evaluate rules (options.under .fail) document = .ok failing →
      passing.elements = failing.elements ∧ passing.skipped = failing.skipped ∧
      passing.violations = failing.violations.filter fun violation =>
        violation.actual ≠ missingValue) ∧
    ((∃ report, evaluate rules (options.under .raise) document = .ok report) ↔
      ∃ report, evaluate rules (options.under .fail) document = .ok report ∧
        ∀ violation ∈ report.violations, violation.actual ≠ missingValue) ∧
    (options.countLabels = true →
      evaluate rules (options.under .raise) document =
        evaluate rules (options.under .pass) document ∧
      evaluate rules (options.under .pass) document =
        evaluate rules (options.under .fail) document) := by
  refine ⟨fun report h => ⟨evaluate_ok_under .pass h, evaluate_ok_under .fail h⟩, fun error => ?_,
    fun error h => ?_, fun error h hkind => ⟨evaluate_error_under (by decide) hkind h,
      evaluate_error_under (by decide) hkind h⟩,
    fun passing failing hpass hfail => ?_, ⟨?_, ?_⟩, fun hcount => ⟨?_, ?_⟩⟩
  · rw [evaluate_pass_eq, map_eq_error_iff]
  · exact exists_error_le_of_imp (fun _ _ => structurallyWrong_of_ne_raise (by decide)) h
  · rw [evaluate_pass_eq, hfail] at hpass
    cases hpass
    exact ⟨rfl, rfl, rfl⟩
  · rintro ⟨report, hraise⟩
    refine ⟨report, evaluate_ok_under .fail hraise, ?_⟩
    -- the report is its own when absent fields pass, so that nothing of it is left out
    have hpass := evaluate_pass_eq rules options document
    rw [evaluate_ok_under .pass hraise, evaluate_ok_under .fail hraise] at hpass
    have hsame : report = report.withoutMissing := Except.ok.inj hpass
    intro violation hviolation
    rw [hsame] at hviolation
    simpa using (List.mem_filter.1 hviolation).2
  · rintro ⟨report, hfail, hpresent⟩
    exact ⟨report, evaluate_raise_of_fail hfail hpresent⟩
  · exact (evaluate_under_of_countLabels hcount (by decide)).symm
  · exact (evaluate_under_of_countLabels hcount (by decide)).trans
      (evaluate_under_of_countLabels hcount (by decide)).symm

/-- A field that is absent in the second element, in front of a value in the third that cannot be
compared: raising ends at the one, passing and failing at the other. -/
theorem evaluate_under_policies_of_absent_field :
    ∃ rules document, ∃ options : Options, ∃ first error : EvaluationError,
      evaluate rules (options.under .raise) document = .error first ∧
        first.fault.kind = .fieldNotFound ∧
      evaluate rules (options.under .pass) document = .error error ∧
      evaluate rules (options.under .fail) document = .error error ∧
        error.fault.kind = .typeMismatch ∧
      first.element ≤ error.element := by
  obtain ⟨rule, hrule⟩ : ∃ rule : Rule, rule = ⟨utf8 "n", .less, .integer 3, []⟩ := ⟨_, rfl⟩
  obtain ⟨document, hdocument⟩ : ∃ document, document =
      Json.array [.object [(utf8 "n", .integer 5)], .object [], .object [(utf8 "n", .null)]] :=
    ⟨_, rfl⟩
  have hraise : evaluate [rule] (Options.under {} .raise) document =
      .error ⟨.fieldNotFound rule, 1⟩ := by
    subst hrule hdocument
    rfl
  have hpass : evaluate [rule] (Options.under {} .pass) document =
      .error ⟨.typeMismatch rule .null, 2⟩ := by
    subst hrule hdocument
    rfl
  obtain ⟨-, hsame, hearlier, -⟩ := evaluate_under_policies [rule] {} document
  obtain ⟨first, hfirst, hle⟩ := hearlier _ hpass
  rw [hraise] at hfirst
  cases hfirst
  exact ⟨_, _, _, _, _, hraise, rfl, hpass, (hsame _).1 hpass, rfl, hle⟩

end FieldRules

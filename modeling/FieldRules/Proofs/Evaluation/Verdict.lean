import FieldRules.Proofs.Evaluation.Judgement
import FieldRules.Validator.Basic
import Mathlib.Tactic.ByContra

/-!
# The verdict of an evaluation

* `Report.outcome_eq_failed_iff` and its companions: the outcome of a report from its violations and
  skipped elements.
* `reportOn`: the report on a document none of whose elements is structurally wrong.
* `evaluate_verdict`: when a document is evaluated and what the evaluation comes to, as a statement
  about its elements and the rules.
-/

namespace FieldRules

variable {rules : List Rule} {options : Options} {document : Json}

/-! ### Outcomes -/

namespace Report

theorem outcome_eq_failed_iff (report : Report) :
    report.outcome = .failed ↔ report.violations ≠ [] := by
  unfold outcome
  cases report.violations with
  | nil => by_cases hskipped : 0 < report.skipped <;> simp [hskipped]
  | cons violation rest => simp

theorem outcome_eq_skipped_iff (report : Report) :
    report.outcome = .skipped ↔ ¬ report.violations ≠ [] ∧ report.skipped ≠ 0 := by
  unfold outcome
  cases report.violations with
  | nil => by_cases hskipped : report.skipped = 0 <;> simp [hskipped, Nat.pos_iff_ne_zero]
  | cons violation rest => simp

theorem outcome_eq_passed_iff (report : Report) :
    report.outcome = .passed ↔ ¬ report.violations ≠ [] ∧ report.skipped = 0 := by
  unfold outcome
  cases report.violations with
  | nil => by_cases hskipped : report.skipped = 0 <;> simp [hskipped, Nat.pos_iff_ne_zero]
  | cons violation rest => simp

end Report

/-! ### The report on a document -/

/-- The report on a document none of whose elements is structurally wrong. -/
def reportOn [DoublePrinter] (rules : List Rule) (options : Options) (document : Json) : Report :=
  .ofVerdicts (document.elements.zipIdx.map fun place => verdictOf rules options place.2 place.1)

/-- Holds of an element that is not skipped and violates some rule. -/
def HasViolation (rules : List Rule) (options : Options) (element : Json) : Prop :=
  isSkipped options element = false ∧ ∃ rule ∈ rules, Violates options element rule

theorem forall_zipIdx {elements : List Json} {p : Json → Prop} :
    (∀ place ∈ elements.zipIdx, p place.1) ↔ ∀ element ∈ elements, p element := by
  have hfst : elements.zipIdx.map Prod.fst = elements := List.zipIdx_map_fst ..
  constructor
  · intro h element helement
    rw [← hfst] at helement
    obtain ⟨place, hplace, rfl⟩ := List.mem_map.1 helement
    exact h place hplace
  · intro h place hplace
    exact h place.1 (by rw [← hfst]; exact List.mem_map_of_mem hplace)

theorem violations_verdictOf_eq_nil_iff [DoublePrinter] (index : Nat) (element : Json) :
    (verdictOf rules options index element).violations = [] ↔
      ¬ HasViolation rules options element := by
  unfold verdictOf HasViolation
  cases hskipped : isSkipped options element with
  | true => simp [Verdict.violations]
  | false => simp [Verdict.violations, violationsOf, List.filter_eq_nil_iff]

theorem isSkipped_verdictOf [DoublePrinter] (index : Nat) (element : Json) :
    (verdictOf rules options index element).isSkipped = isSkipped options element := by
  unfold verdictOf
  cases hskipped : isSkipped options element <;> rfl

theorem violations_reportOn_ne_nil_iff [DoublePrinter] :
    (reportOn rules options document).violations ≠ [] ↔
      ∃ element ∈ document.elements, HasViolation rules options element := by
  have hnil : (reportOn rules options document).violations = [] ↔
      ∀ element ∈ document.elements, ¬ HasViolation rules options element := by
    rw [← forall_zipIdx]
    simp only [reportOn, Report.ofVerdicts, List.flatMap_eq_nil_iff, List.forall_mem_map,
      violations_verdictOf_eq_nil_iff]
  rw [ne_eq, hnil]
  simp

theorem skipped_reportOn_eq_zero_iff [DoublePrinter] :
    (reportOn rules options document).skipped = 0 ↔
      ∀ element ∈ document.elements, isSkipped options element = false := by
  rw [← forall_zipIdx]
  simp only [reportOn, Report.ofVerdicts, List.countP_eq_zero, List.forall_mem_map,
    isSkipped_verdictOf, Bool.not_eq_true]

/-! ### Verdicts -/

/-- An element whose rules can be applied, and are not violated, is one on which all rules that
count hold. -/
theorem forall_satisfied_iff {element : Json}
    (h : ∀ rule ∈ rules, ¬ Inapplicable options element rule) :
    (¬ ∃ rule ∈ rules, Violates options element rule) ↔
      ∀ rule ∈ rules, options.isIgnored rule.field = false →
        answer options element rule = .satisfied := by
  constructor
  · intro hviolates rule hrule hcounts
    cases hanswer : answer options element rule with
    | satisfied => rfl
    | unsatisfied => exact absurd ⟨rule, hrule, hcounts, hanswer⟩ hviolates
    | mismatch => exact absurd ⟨hcounts, hanswer⟩ (h rule hrule)
  · rintro hholds ⟨rule, hrule, hcounts, hanswer⟩
    rw [hholds rule hrule hcounts] at hanswer
    cases hanswer

/-- A report has passed if every element is an object that is not skipped and all rules that count
hold on it. -/
theorem outcome_reportOn_eq_passed_iff [DoublePrinter]
    (h : ∀ element ∈ document.elements, ¬ StructurallyWrong rules options element) :
    (reportOn rules options document).outcome = .passed ↔
      ∀ element ∈ document.elements, element.isObject = true ∧ isSkipped options element = false ∧
        ∀ rule ∈ rules, options.isIgnored rule.field = false →
          answer options element rule = .satisfied := by
  rw [Report.outcome_eq_passed_iff, violations_reportOn_ne_nil_iff, skipped_reportOn_eq_zero_iff]
  have happlicable : ∀ element ∈ document.elements, isSkipped options element = false →
      ∀ rule ∈ rules, ¬ Inapplicable options element rule := by
    intro element helement hskipped rule hrule hinapplicable
    exact h element helement (Or.inr (Or.inr ⟨hskipped, rule, hrule, hinapplicable⟩))
  constructor
  · rintro ⟨hviolations, hskipped⟩ element helement
    refine ⟨?_, hskipped element helement, ?_⟩
    · by_contra hobject
      exact h element helement (Or.inl (by simpa using hobject))
    · refine (forall_satisfied_iff (happlicable element helement (hskipped element helement))).1 ?_
      intro hviolates
      exact hviolations ⟨element, helement, hskipped element helement, hviolates⟩
  · intro hall
    refine ⟨?_, fun element helement => (hall element helement).2.1⟩
    rintro ⟨element, helement, hskipped, hviolates⟩
    exact (forall_satisfied_iff (happlicable element helement hskipped)).2
      (hall element helement).2.2 hviolates

/-- The verdict of an evaluation. There is no report if some element is structurally wrong.
Otherwise the report has failed if some element that is not skipped violates a rule, is skipped if
there is no such element and some element is skipped, and has passed if all elements are objects
that are not skipped and on which all rules that count hold; so the empty array passes. A validator
accepts the document if the report has passed. -/
theorem evaluate_verdict [DoublePrinter] (rules : List Rule) (options : Options) (document : Json) :
    ((∃ error, evaluate rules options document = .error error) ↔
      ∃ element ∈ document.elements, StructurallyWrong rules options element) ∧
    (∀ report, evaluate rules options document = .ok report →
      (report.outcome = .failed ↔ ∃ element ∈ document.elements,
        HasViolation rules options element) ∧
      (report.outcome = .skipped ↔
        (¬ ∃ element ∈ document.elements, HasViolation rules options element) ∧
        ∃ element ∈ document.elements, isSkipped options element = true) ∧
      (report.outcome = .passed ↔ ∀ element ∈ document.elements, element.isObject = true ∧
        isSkipped options element = false ∧ ∀ rule ∈ rules, options.isIgnored rule.field = false →
          answer options element rule = .satisfied)) ∧
    (∃ report, evaluate rules options (.array []) = .ok report ∧ report.outcome = .passed) ∧
    ((Validator.validate ⟨rules, options⟩ document).value = .ok true ↔
      ∃ report, evaluate rules options document = .ok report ∧ report.outcome = .passed) ∧
    ((Validator.validate ⟨rules, options⟩ document).value = .ok false ↔
      ∃ report, evaluate rules options document = .ok report ∧
        (report.outcome = .failed ∨ report.outcome = .skipped)) ∧
    ∀ error, (Validator.validate ⟨rules, options⟩ document).value = .error error ↔
      evaluate rules options document = .error error := by
  have hvalidate : (Validator.validate ⟨rules, options⟩ document).value =
      (evaluate rules options document).map Report.passed := rfl
  refine ⟨⟨?_, exists_error_of_evaluate⟩, ?_, ⟨_, rfl, rfl⟩, ?_⟩
  · rintro ⟨error, herror⟩
    by_contra hwrong
    rw [evaluate_eq_ok fun element helement h => hwrong ⟨element, helement, h⟩] at herror
    cases herror
  · intro report hreport
    -- whatever has a report has the one on its elements, for none of them is structurally wrong
    have hwell : ∀ element ∈ document.elements, ¬ StructurallyWrong rules options element := by
      intro element helement hwrong
      obtain ⟨error, herror⟩ := exists_error_of_evaluate ⟨element, helement, hwrong⟩
      rw [herror] at hreport
      cases hreport
    have hreport : report = reportOn rules options document := by
      rw [evaluate_eq_ok hwell] at hreport
      cases hreport
      rfl
    rw [hreport]
    refine ⟨?_, ?_, outcome_reportOn_eq_passed_iff hwell⟩
    · rw [Report.outcome_eq_failed_iff, violations_reportOn_ne_nil_iff]
    · rw [Report.outcome_eq_skipped_iff, violations_reportOn_ne_nil_iff, ne_eq,
        skipped_reportOn_eq_zero_iff]
      simp
  · rw [hvalidate]
    cases evaluate rules options document with
    | error error => simp [Except.map]
    | ok report => cases houtcome : report.outcome <;> simp [Except.map, Report.passed, houtcome]

/-- Of two elements one satisfies the rule and the other is skipped for its flag. -/
theorem evaluate_verdict_of_skipped_element :
    ∃ rules options document report, evaluate rules options document = .ok report ∧
      report.outcome = .skipped ∧
      ∃ element ∈ document.elements, isSkipped options element = true := by
  have hreport : evaluate [⟨utf8 "n", .less, .integer 3, []⟩] { ignores := [utf8 "draft"] }
      (.array [.object [(utf8 "n", .integer 2)],
        .object [(utf8 "flags", .object [(utf8 "draft", .bool true)])]]) =
      .ok ⟨2, 1, []⟩ := rfl
  exact ⟨_, _, _, _, hreport, rfl, (((evaluate_verdict _ _ _).2.1 _ hreport).2.1.1 rfl).2⟩

end FieldRules

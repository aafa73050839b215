import FieldRules.Proofs.Evaluation.FirstFault
import FieldRules.Proofs.Evaluation.Verdict

/-!
# Elements in two parts

What an evaluation finds in an element does not depend on the elements around it; only the place
that it tells does.

* `Violation.shift`, `Verdict.shift`, `EvaluationError.shift`: what is told of an element behind
  some more places.
* `judge_shift`, `judgeFrom_shift`: an evaluation further on tells the same, of other places.
* `Report.append`, `Report.outcome_append`: the report on elements followed by others, and what it
  comes to.
* `evaluate_append`: an array is evaluated in two parts, the second only if the first has a report.
* `evaluate_compositional`: what comes of an array from what comes of its parts, and of a document
  that is no array.
-/

namespace FieldRules

variable {rules : List Rule} {options : Options}

/-! ### Places -/

/-- A violation behind some more places. -/
def Violation.shift (places : Nat) (violation : Violation) : Violation :=
  { violation with element := violation.element + places }

/-- A verdict behind some more places. -/
def Verdict.shift (places : Nat) : Verdict → Verdict
  | .skipped => .skipped
  | .checked violations => .checked (violations.map (Violation.shift places))

/-- An error behind some more places. -/
def EvaluationError.shift (places : Nat) (error : EvaluationError) : EvaluationError :=
  { error with element := error.element + places }

@[simp] theorem Verdict.isSkipped_shift (places : Nat) (verdict : Verdict) :
    (verdict.shift places).isSkipped = verdict.isSkipped := by
  cases verdict <;> rfl

@[simp] theorem Verdict.violations_shift (places : Nat) (verdict : Verdict) :
    (verdict.shift places).violations = verdict.violations.map (Violation.shift places) := by
  cases verdict <;> rfl

theorem verdictOf_shift [DoublePrinter] (index places : Nat) (element : Json) :
    verdictOf rules options (index + places) element =
      (verdictOf rules options index element).shift places := by
  unfold verdictOf
  split
  · rfl
  · simp [Verdict.shift, Violation.shift, violationsOf, Function.comp_def]

theorem judge_shift [DoublePrinter] (index places : Nat) (element : Json) :
    judge rules options (index + places) element =
      (judge rules options index element).map (Verdict.shift places) := by
  by_cases hwrong : StructurallyWrong rules options element
  · obtain ⟨fault, hfault⟩ : ∃ fault, judge rules options index element = .error fault :=
      exists_error_of_judge hwrong
    rw [hfault, judge_eq_error_iff.2 (judge_eq_error_iff.1 hfault)]
    rfl
  · rw [judge_eq_ok hwrong, judge_eq_ok hwrong, verdictOf_shift]
    rfl

theorem judgeFrom_shift [DoublePrinter] (index places : Nat) (elements : List Json) :
    judgeFrom rules options (index + places) elements =
      ((judgeFrom rules options index elements).map (List.map (Verdict.shift places))).mapError
        (EvaluationError.shift places) := by
  induction elements generalizing index with
  | nil => rfl
  | cons element elements ih =>
    cases hjudge : judge rules options index element with
    | error fault =>
      rw [judgeFrom_cons_of_error hjudge,
        judgeFrom_cons_of_error (by rw [judge_shift, hjudge]; rfl)]
      rfl
    | ok verdict =>
      rw [judgeFrom_cons_of_ok hjudge, judgeFrom_cons_of_ok (by rw [judge_shift, hjudge]; rfl),
        Nat.add_right_comm, ih]
      cases judgeFrom rules options (index + 1) elements <;> rfl

/-! ### Two parts -/

theorem length_of_judgeFrom [DoublePrinter] {index : Nat} {elements : List Json}
    {verdicts : List Verdict} (h : judgeFrom rules options index elements = .ok verdicts) :
    verdicts.length = elements.length := by
  induction elements generalizing index verdicts with
  | nil =>
    cases h
    rfl
  | cons element elements ih =>
    obtain ⟨verdict, -, hrest⟩ := bind_eq_ok_iff.1 h
    obtain ⟨others, hothers, hverdicts⟩ := bind_eq_ok_iff.1 hrest
    cases hverdicts
    rw [List.length_cons, List.length_cons, ih hothers]

/-- Elements are judged in two parts, the second only if all of the first can be judged. -/
theorem judgeFrom_append [DoublePrinter] (index : Nat) (first second : List Json) :
    judgeFrom rules options index (first ++ second) =
      judgeFrom rules options index first >>= fun verdicts =>
        (judgeFrom rules options (index + first.length) second).map (verdicts ++ ·) := by
  induction first generalizing index with
  | nil =>
    rw [List.nil_append, judgeFrom_nil]
    show _ = (judgeFrom rules options index second).map _
    cases judgeFrom rules options index second <;> rfl
  | cons element first ih =>
    rw [List.cons_append]
    cases hjudge : judge rules options index element with
    | error fault =>
      rw [judgeFrom_cons_of_error hjudge, judgeFrom_cons_of_error hjudge]
      rfl
    | ok verdict =>
      have hplace : index + (element :: first).length = index + 1 + first.length := by
        rw [List.length_cons]
        omega
      rw [judgeFrom_cons_of_ok hjudge, judgeFrom_cons_of_ok hjudge, ih, hplace]
      cases judgeFrom rules options (index + 1) first with
      | error error => rfl
      | ok verdicts =>
        cases judgeFrom rules options (index + 1 + first.length) second <;>
          simp [bind, Except.bind, Except.map]

/-- The report on elements followed by others: the counts add up, and the violations of the others
have places behind the first elements. -/
def Report.append (first second : Report) : Report where
  elements := first.elements + second.elements
  skipped := first.skipped + second.skipped
  violations := first.violations ++ second.violations.map (Violation.shift first.elements)

theorem Report.ofVerdicts_append (first second : List Verdict) :
    ofVerdicts (first ++ second.map (Verdict.shift first.length)) =
      (ofVerdicts first).append (ofVerdicts second) := by
  simp [ofVerdicts, append, List.countP_map, Function.comp_def, List.flatMap_map, List.map_flatMap]

/-- A report on two parts has failed if that on either part has, and otherwise is skipped if that on
either part is. -/
theorem Report.outcome_append (first second : Report) :
    (first.append second).outcome =
      if first.outcome = .failed ∨ second.outcome = .failed then .failed
      else if first.outcome = .skipped ∨ second.outcome = .skipped then .skipped
      else .passed := by
  obtain ⟨elements, skipped, violations⟩ := first
  obtain ⟨others, skipped', violations'⟩ := second
  cases violations <;> cases violations' <;> cases skipped <;> cases skipped' <;>
    simp [append, outcome]

theorem Report.passed_append (first second : Report) :
    (first.append second).passed = (first.passed && second.passed) := by
  rw [passed, passed, passed, outcome_append]
  cases first.outcome <;> cases second.outcome <;> rfl

/-- An array is evaluated in two parts. An error of the first part is that of the array, and so is
one of the second behind the places of the first; otherwise the reports are put together. -/
theorem evaluate_append [DoublePrinter] (first second : List Json) :
    evaluate rules options (.array (first ++ second)) =
      evaluate rules options (.array first) >>= fun report =>
        ((evaluate rules options (.array second)).mapError
          (EvaluationError.shift first.length)).map report.append := by
  unfold evaluate
  simp only [Json.elements_array]
  rw [judgeFrom_append, judgeFrom_shift]
  cases hfirst : judgeFrom rules options 0 first with
  | error error => rfl
  | ok verdicts =>
    rw [← length_of_judgeFrom hfirst]
    cases judgeFrom rules options 0 second with
    | error error => rfl
    | ok others => exact congrArg Except.ok (Report.ofVerdicts_append verdicts others)

theorem elements_of_evaluate_array [DoublePrinter] {items : List Json} {report : Report}
    (h : evaluate rules options (.array items) = .ok report) : report.elements = items.length := by
  obtain ⟨verdicts, hverdicts, rfl⟩ := map_eq_ok_iff.1 h
  exact length_of_judgeFrom hverdicts

/-- Arrays are evaluated part by part. An error in the first part is the error of the whole, and so
is one in the second behind the places of the first. Without an error the counts add up, the
violations of the second part come behind those of the first, with their places moved, and the
outcome is the worse of the two: failed, else skipped, else passed. A document that is no array is
evaluated as the array of it alone. -/
theorem evaluate_compositional [DoublePrinter] (rules : List Rule) (options : Options) :
    (∀ first second : List Json,
      (∀ error, evaluate rules options (.array first) = .error error →
        evaluate rules options (.array (first ++ second)) = .error error) ∧
      (∀ report error, evaluate rules options (.array first) = .ok report →
        evaluate rules options (.array second) = .error error →
        evaluate rules options (.array (first ++ second)) =
          .error { error with element := error.element + first.length }) ∧
      (∀ report other, evaluate rules options (.array first) = .ok report →
        evaluate rules options (.array second) = .ok other →
        ∃ whole, evaluate rules options (.array (first ++ second)) = .ok whole ∧
          whole.elements = report.elements + other.elements ∧
          whole.skipped = report.skipped + other.skipped ∧
          whole.violations = report.violations ++ other.violations.map (fun violation =>
            { violation with element := violation.element + first.length }) ∧
          whole.outcome =
            if report.outcome = .failed ∨ other.outcome = .failed then .failed
            else if report.outcome = .skipped ∨ other.outcome = .skipped then .skipped
            else .passed)) ∧
    ∀ document, (∀ items, document ≠ .array items) →
      evaluate rules options document = evaluate rules options (.array [document]) := by
  refine ⟨fun first second => ⟨fun error hfirst => ?_, fun report error hfirst hsecond => ?_,
    fun report other hfirst hsecond => ?_⟩, fun document hdocument => ?_⟩
  · rw [evaluate_append, hfirst]
    rfl
  · rw [evaluate_append, hfirst, hsecond]
    rfl
  · refine ⟨report.append other, ?_, rfl, rfl, ?_, Report.outcome_append report other⟩
    · rw [evaluate_append, hfirst, hsecond]
      rfl
    · rw [← elements_of_evaluate_array hfirst]
      rfl
  · rw [evaluate, evaluate, Json.elements_of_not_array hdocument, Json.elements_array]

/-- A part with a violation and one with a skipped element, then one that ends in an error: the
whole has failed as far as there is a report, and the error is told of its place behind all of
them. -/
theorem evaluate_compositional_of_three_parts :
    ∃ rules options, ∃ first second third : List Json, ∃ whole : Report, ∃ error : EvaluationError,
      evaluate rules options (.array (first ++ second)) = .ok whole ∧ whole.outcome = .failed ∧
        whole.skipped = 1 ∧ whole.violations.map Violation.element = [0, 2] ∧
      evaluate rules options (.array third) = .error error ∧ error.element = 1 ∧
      evaluate rules options (.array (first ++ second ++ third)) =
        .error { error with element := 4 } ∧
      evaluate rules options (.object [(utf8 "n", .integer 5)]) =
        evaluate rules options (.array [.object [(utf8 "n", .integer 5)]]) := by
  obtain ⟨rule, hrule⟩ : ∃ rule : Rule, rule = ⟨utf8 "n", .less, .integer 3, []⟩ := ⟨_, rfl⟩
  obtain ⟨options, hoptions⟩ : ∃ options : Options,
      options = { ignores := [utf8 "draft"] } := ⟨_, rfl⟩
  obtain ⟨failing, hfailing⟩ : ∃ failing, failing = Json.object [(utf8 "n", .integer 5)] := ⟨_, rfl⟩
  obtain ⟨draft, hdraft⟩ : ∃ draft,
      draft = Json.object [(utf8 "flags", .object [(utf8 "draft", .bool true)])] := ⟨_, rfl⟩
  have hfirst : evaluate [rule] options (.array [failing]) =
      .ok ⟨1, 0, [⟨utf8 "n<3", 0, utf8 "5"⟩]⟩ := by
    subst hrule hoptions hfailing
    rfl
  have hsecond : evaluate [rule] options (.array [draft, failing]) =
      .ok ⟨2, 1, [⟨utf8 "n<3", 1, utf8 "5"⟩]⟩ := by
    subst hrule hoptions hfailing hdraft
    rfl
  have hthird : evaluate [rule] options (.array [draft, .object []]) =
      .error ⟨.fieldNotFound rule, 1⟩ := by
    subst hrule hoptions hdraft
    rfl
  obtain ⟨hparts, hdocument⟩ := evaluate_compositional [rule] options
  obtain ⟨whole, hwhole, -, hskipped, hviolations, houtcome⟩ :=
    (hparts [failing] [draft, failing]).2.2 _ _ hfirst hsecond
  have herror := (hparts ([failing] ++ [draft, failing]) [draft, .object []]).2.1 _ _ hwhole hthird
  refine ⟨_, _, _, _, _, whole, _, hwhole, houtcome,
    hskipped, by rw [hviolations]; rfl, hthird, rfl, herror, ?_⟩
  exact hdocument _ fun items => by simp

end FieldRules

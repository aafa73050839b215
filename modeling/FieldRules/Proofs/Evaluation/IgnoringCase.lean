import FieldRules.Proofs.Comparison.Case
import FieldRules.Proofs.Comparison.Coherence
import FieldRules.Proofs.Evaluation.Contents
import FieldRules.Proofs.Evaluation.FirstFault
import Mathlib.Data.List.Flatten

/-!
# Ignoring case

An evaluation that ignores case answers rules on strings in another way. Nothing else of it changes:
it fails at the same element for the same reason, and skips the same elements.

* `Options.ignoringCase`: options under which case is ignored or not.
* `inapplicable_ignoringCase_iff`, `HasFault.ignoringCase`: what cannot be judged does not depend on
  it.
* `violationsByRule`: the violations of a document with the rules that are violated.
* `violationsByRule_filter_sublist`: violations by some of the rules are kept if each element keeps
  them.
* `evaluate_ignoring_case`: what ignoring case changes, in a comparison and in an evaluation.
-/

namespace FieldRules

variable {rules : List Rule} {options : Options} {element : Json} {document : Json}
  {ignoreCase other : Bool}

/-- Options under which case is ignored or not. -/
def Options.ignoringCase (options : Options) (ignoreCase : Bool) : Options :=
  { options with ignoreCase }

@[simp] theorem isSkipped_ignoringCase (options : Options) (ignoreCase : Bool) (element : Json) :
    isSkipped (options.ignoringCase ignoreCase) element = isSkipped options element := rfl

@[simp] theorem subject_ignoringCase (options : Options) (ignoreCase : Bool) (element : Json)
    (name : Bytes) :
    subject (options.ignoringCase ignoreCase) element name = subject options element name := rfl

@[simp] theorem actual_ignoringCase [DoublePrinter] (options : Options) (ignoreCase : Bool)
    (element : Json) (rule : Rule) :
    actual (options.ignoringCase ignoreCase) element rule = actual options element rule := rfl

/-! ### Rules -/

theorem inapplicable_ignoringCase_iff {rule : Rule} :
    Inapplicable (options.ignoringCase ignoreCase) element rule ↔
      Inapplicable (options.ignoringCase other) element rule := by
  refine and_congr_right fun _ => ?_
  simp only [answer_eq_mismatch_iff, subject_ignoringCase]
  refine or_congr_right (exists_congr fun value => and_congr_right fun _ => ?_)
  exact (compareWith_eq_mismatch_iff ..).trans (compareWith_eq_mismatch_iff ..).symm

/-- A rule is violated with and without regard to case if the answers for every value are the
same. -/
theorem violates_ignoringCase {rule : Rule}
    (h : ∀ value, compareWith value rule.operator rule.operand ignoreCase = .unsatisfied →
      compareWith value rule.operator rule.operand other = .unsatisfied)
    (hviolates : Violates (options.ignoringCase ignoreCase) element rule) :
    Violates (options.ignoringCase other) element rule := by
  refine hviolates.imp_right fun hanswer => ?_
  unfold answer at hanswer ⊢
  rw [subject_ignoringCase] at hanswer ⊢
  cases hsubject : subject options element rule.field with
  | none => rwa [hsubject] at hanswer
  | some value =>
    rw [hsubject] at hanswer
    exact h value hanswer

/-! ### Elements -/

theorem structurallyWrong_ignoringCase_iff :
    StructurallyWrong rules (options.ignoringCase ignoreCase) element ↔
      StructurallyWrong rules (options.ignoringCase other) element := by
  unfold StructurallyWrong
  simp only [@inapplicable_ignoringCase_iff _ _ ignoreCase other]
  rfl

theorem HasFault.ignoringCase {fault : EvaluationFault}
    (h : HasFault rules (options.ignoringCase ignoreCase) element fault) (other : Bool) :
    HasFault rules (options.ignoringCase other) element fault := by
  have hchecks (hchecked : IsChecked (options.ignoringCase ignoreCase) element) :
      IsChecked (options.ignoringCase other) element :=
    ⟨hchecked.isObject, hchecked.not_isSkipped, hchecked.isAnnotation⟩
  have hcomes {rule : Rule}
      (hfirst : ComesFirst rules (options.ignoringCase ignoreCase) element rule) :
      ComesFirst rules (options.ignoringCase other) element rule := by
    obtain ⟨earlier, _, later, hrules, hearlier, rfl⟩ := hfirst
    exact ⟨earlier, _, later, hrules, fun rule hrule =>
      inapplicable_ignoringCase_iff.not.1 (hearlier rule hrule), rfl⟩
  cases h with
  | notAnObject hobject => exact .notAnObject hobject
  | unlabelled hobject hskipped hcount hlabels => exact .unlabelled hobject hskipped hcount hlabels
  | fieldNotFound hchecked hfirst hcounts habsent hraise =>
    exact .fieldNotFound (hchecks hchecked) (hcomes hfirst) hcounts habsent hraise
  | typeMismatch hchecked hfirst hcounts hpresent hcompare =>
    refine .typeMismatch (hchecks hchecked) (hcomes hfirst) hcounts hpresent ?_
    exact (compareWith_eq_mismatch_iff ..).2 ((compareWith_eq_mismatch_iff ..).1 hcompare)

/-! ### Violations -/

/-- The violations of a document in order, each with the rule that is violated. -/
def violationsByRule [DoublePrinter] (rules : List Rule) (options : Options) (document : Json) :
    List (Rule × Violation) :=
  document.elements.zipIdx.flatMap fun (element, index) =>
    if isSkipped options element then []
    else
      (rules.filter fun rule => Violates options element rule).map fun rule =>
        (rule, ⟨rule.canonical, index, actual options element rule⟩)

theorem violations_reportOn_eq_map [DoublePrinter] (rules : List Rule) (options : Options)
    (document : Json) :
    (reportOn rules options document).violations =
      (violationsByRule rules options document).map Prod.snd := by
  rw [violations_reportOn, violationsByRule, List.map_flatMap]
  congr 1
  funext ⟨element, index⟩
  cases hskipped : isSkipped options element <;> simp [hskipped, violationsOf]

/-- The violations by some of the rules are among others, in order, if every value that violates
such a rule does so there. -/
theorem violationsByRule_filter_sublist [DoublePrinter] (p : Rule → Bool)
    (h : ∀ rule, p rule = true → ∀ value, compareWith value rule.operator rule.operand ignoreCase =
      .unsatisfied → compareWith value rule.operator rule.operand other = .unsatisfied) :
    ((violationsByRule rules (options.ignoringCase ignoreCase) document).filter fun violation =>
      p violation.1).Sublist
      ((violationsByRule rules (options.ignoringCase other) document).filter fun violation =>
        p violation.1) := by
  rw [violationsByRule, violationsByRule, List.filter_flatMap, List.filter_flatMap]
  refine List.Sublist.flatMap_right _ fun ⟨element, index⟩ _ => ?_
  cases hskipped : isSkipped options element with
  | true => simp [hskipped]
  | false =>
    simp only [isSkipped_ignoringCase, actual_ignoringCase, hskipped, Bool.false_eq_true,
      if_false, List.filter_map, List.filter_filter]
    refine List.Sublist.map _ (List.monotone_filter_right rules fun rule hrule => ?_)
    simp only [Function.comp_apply, Bool.and_eq_true, decide_eq_true_eq] at hrule ⊢
    exact ⟨hrule.1, violates_ignoringCase (h rule hrule.1) hrule.2⟩

theorem violationsByRule_filter_not_string [DoublePrinter] (rules : List Rule) (options : Options)
    (document : Json) :
    (violationsByRule rules (options.ignoringCase true) document).filter
        (fun violation => violation.1.operand.kind != .string) =
      (violationsByRule rules (options.ignoringCase false) document).filter
        fun violation => violation.1.operand.kind != .string := by
  have hsame (rule : Rule) (hrule : (rule.operand.kind != .string) = true) (value : Json) :
      compareWith value rule.operator rule.operand true =
        compareWith value rule.operator rule.operand false := by
    refine compareWith_eq_of_not_strings ?_ rule.operator true
    rintro ⟨s, t, -, hoperand⟩
    rw [hoperand] at hrule
    cases hrule
  refine List.Sublist.antisymm
    (violationsByRule_filter_sublist (·.operand.kind != .string) fun rule hrule value hanswer => ?_)
    (violationsByRule_filter_sublist (·.operand.kind != .string) fun rule hrule value hanswer => ?_)
  · rwa [← hsame rule hrule value]
  · rwa [hsame rule hrule value]

/-! ### Documents -/

theorem evaluate_ignoringCase_eq_error [DoublePrinter] {error : EvaluationError}
    (h : evaluate rules (options.ignoringCase ignoreCase) document = .error error) (other : Bool) :
    evaluate rules (options.ignoringCase other) document = .error error := by
  obtain ⟨before, element, after, helements, hplace, hbefore, hhas⟩ := evaluate_eq_error_iff.1 h
  exact evaluate_eq_error_iff.2 ⟨before, element, after, helements, hplace,
    fun earlier hearlier => structurallyWrong_ignoringCase_iff.not.1 (hbefore earlier hearlier),
    hhas.ignoringCase other⟩

/-- What ignoring case changes.
* Two strings that differ in the case of ASCII letters at most compare alike, on either side and
  under every operator. They are the only ones that become equal: any other byte is told from all
  others.
* What is not a string compared with a string compares as before.
* An evaluation has an error if it has one with regard to case, and it is the same error. Otherwise
  as many elements are counted and skipped, and the violations of the two reports are those of
  `violationsByRule`: by rules without a string the same ones, by rules for equality some of those
  with regard to case, and by rules against equality all of those and maybe more, each time in
  order. -/
theorem evaluate_ignoring_case [DoublePrinter] :
    (∀ s t : Bytes, s.SameButCase t → ∀ operator,
      (∀ operand, compareWith (.string s) operator operand true =
        compareWith (.string t) operator operand true) ∧
      ∀ value, compareWith value operator (.string s) true =
        compareWith value operator (.string t) true) ∧
    (∀ s t : Bytes, compareWith (.string s) .equal (.string t) true = .satisfied ↔
      s.SameButCase t) ∧
    (∀ value operand, (¬ ∃ s t, value = .string s ∧ operand = .string t) → ∀ operator,
      compareWith value operator operand true = compareWith value operator operand false) ∧
    ∀ rules (options : Options) document,
      (∀ error, evaluate rules (options.ignoringCase true) document = .error error ↔
        evaluate rules (options.ignoringCase false) document = .error error) ∧
      ∀ folded exact, evaluate rules (options.ignoringCase true) document = .ok folded →
        evaluate rules (options.ignoringCase false) document = .ok exact →
        folded.elements = exact.elements ∧ folded.skipped = exact.skipped ∧
        folded.violations =
          (violationsByRule rules (options.ignoringCase true) document).map Prod.snd ∧
        exact.violations =
          (violationsByRule rules (options.ignoringCase false) document).map Prod.snd ∧
        (violationsByRule rules (options.ignoringCase true) document).filter
            (fun violation => violation.1.operand.kind != .string) =
          (violationsByRule rules (options.ignoringCase false) document).filter
            (fun violation => violation.1.operand.kind != .string) ∧
        ((violationsByRule rules (options.ignoringCase true) document).filter
            fun violation => violation.1.operator = .equal).Sublist
          ((violationsByRule rules (options.ignoringCase false) document).filter
            fun violation => violation.1.operator = .equal) ∧
        ((violationsByRule rules (options.ignoringCase false) document).filter
            fun violation => violation.1.operator = .notEqual).Sublist
          ((violationsByRule rules (options.ignoringCase true) document).filter
            fun violation => violation.1.operator = .notEqual) := by
  refine ⟨fun s t hsame operator => ⟨compareWith_of_sameButCase_left hsame operator,
    fun value => compareWith_of_sameButCase_right hsame value operator⟩, fun s t =>
      compareWith_equal_iff_sameButCase,
    fun value operand hstrings operator => compareWith_eq_of_not_strings hstrings operator true,
    fun rules options document => ⟨fun error => ?_, fun folded exact hfolded hexact => ?_⟩⟩
  · exact ⟨(evaluate_ignoringCase_eq_error · false), (evaluate_ignoringCase_eq_error · true)⟩
  · obtain ⟨-, rfl⟩ := evaluate_eq_ok_iff.1 hfolded
    obtain ⟨-, rfl⟩ := evaluate_eq_ok_iff.1 hexact
    refine ⟨?_, ?_, violations_reportOn_eq_map .., violations_reportOn_eq_map ..,
      violationsByRule_filter_not_string rules options document, ?_, ?_⟩
    · rw [elements_reportOn, elements_reportOn]
    · rw [skipped_reportOn, skipped_reportOn]
      rfl
    · refine violationsByRule_filter_sublist (·.operator = .equal)
        fun rule hrule value hanswer => ?_
      rw [of_decide_eq_true hrule] at hanswer ⊢
      exact equal_of_ignoreCase hanswer
    · refine violationsByRule_filter_sublist (·.operator = .notEqual)
        fun rule hrule value hanswer => ?_
      rw [of_decide_eq_true hrule] at hanswer ⊢
      exact notEqual_of_exact hanswer

/-- Two spellings with a letter beyond ASCII, a number against a string, and a document in which
ignoring case takes one violation away and adds another. -/
theorem evaluate_ignoring_case_of_two_spellings :
    ∃ (s t : Bytes) (rules : List Rule) (document : Json) (folded exact : Report),
      s ≠ t ∧ s.SameButCase t ∧
      compareWith (.string s) .less (.string (utf8 "b")) true =
        compareWith (.string t) .less (.string (utf8 "b")) true ∧
      ¬ (utf8 "é").SameButCase (utf8 "É") ∧
      compareWith (.integer 1) .notEqual (.string s) true =
        compareWith (.integer 1) .notEqual (.string s) false ∧
      evaluate rules (Options.ignoringCase {} true) document = .ok folded ∧
      evaluate rules (Options.ignoringCase {} false) document = .ok exact ∧
      folded.violations.map Violation.rule = [utf8 "s!=caté", utf8 "n<3"] ∧
      exact.violations.map Violation.rule = [utf8 "s==caté", utf8 "n<3"] ∧
      folded.violations =
        (violationsByRule rules (Options.ignoringCase {} true) document).map Prod.snd := by
  obtain ⟨s, hs⟩ : ∃ s, s = utf8 "Caté" := ⟨_, rfl⟩
  obtain ⟨t, ht⟩ : ∃ t, t = utf8 "caté" := ⟨_, rfl⟩
  obtain ⟨rules, hrules⟩ : ∃ rules : List Rule,
      rules = [⟨utf8 "s", .equal, .string t, []⟩, ⟨utf8 "s", .notEqual, .string t, []⟩,
        ⟨utf8 "n", .less, .integer 3, []⟩] :=
    ⟨_, rfl⟩
  obtain ⟨document, hdocument⟩ : ∃ document,
      document = Json.object [(utf8 "n", .integer 5), (utf8 "s", .string s)] :=
    ⟨_, rfl⟩
  have hfolded : evaluate rules (Options.ignoringCase {} true) document =
      .ok ⟨1, 0, [⟨utf8 "s!=caté", 0, utf8 "\"Caté\""⟩, ⟨utf8 "n<3", 0, utf8 "5"⟩]⟩ := by
    subst hdocument hrules hs ht
    rfl
  have hexact : evaluate rules (Options.ignoringCase {} false) document =
      .ok ⟨1, 0, [⟨utf8 "s==caté", 0, utf8 "\"Caté\""⟩, ⟨utf8 "n<3", 0, utf8 "5"⟩]⟩ := by
    subst hdocument hrules hs ht
    rfl
  have hsame : s.SameButCase t := map_toLower_eq_iff.1 (by subst hs ht; decide)
  have hother : compareWith (.string (utf8 "é")) .equal (.string (utf8 "É")) true =
      .unsatisfied := by decide
  obtain ⟨hspelling, hequal, hkinds, hdocuments⟩ := evaluate_ignoring_case
  have hnumber : ¬ ∃ u v, Json.integer 1 = .string u ∧ Literal.string s = .string v := by simp
  refine ⟨s, t, rules, document, _,
    _, by subst hs ht; decide, hsame, (hspelling s t hsame .less).1 _, fun hletters => ?_,
    hkinds _ _ hnumber .notEqual, hfolded, hexact, rfl, rfl,
    ((hdocuments rules {} document).2 _ _ hfolded hexact).2.2.1⟩
  rw [(hequal _ _).2 hletters] at hother
  cases hother

end FieldRules

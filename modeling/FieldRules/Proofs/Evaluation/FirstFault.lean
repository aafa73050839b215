import FieldRules.Proofs.Evaluation.Judgement
import Mathlib.Tactic.ByContra

/-!
# The error of an evaluation

An evaluation ends at the first element that cannot be judged, with what is wrong with it first.

* `HasFault`: the fault of an element. Its form comes before its labels, its labels before the
  rules, and an earlier rule before the later ones.
* `judge_eq_error_iff`, `evaluate_eq_error_iff`: which error an element and a document lead to.
* `exists_error_le`, `exists_error_le_of_imp`: errors about an element or an earlier one.
* `evaluate_first_fault`: what the error of a document tells about it.
-/

namespace FieldRules

variable {rules : List Rule} {options : Options} {element : Json} {index : Nat}
  {fault : EvaluationFault}

/-! ### Rules -/

/-- Checking rules ends at the first that cannot be applied. -/
theorem checkRules_eq_error_iff [DoublePrinter] :
    checkRules options (subject options element) index rules = .error fault ↔
      ComesTo (fun rule => ¬ Inapplicable options element rule)
        (fun rule => Inapplicable options element rule ∧
          faultOf options element rule = fault) rules := by
  induction rules with
  | nil => simp [not_comesTo_nil]
  | cons rule rules ih =>
    rw [checkRules_cons, comesTo_cons, ← ih]
    by_cases hrule : Inapplicable options element rule
    · simp [hrule]
    · simp [hrule, map_eq_error_iff]

/-- A rule answers with an error if its field is absent and that is one, or if the value cannot be
compared. -/
theorem answer_eq_mismatch_iff {rule : Rule} :
    answer options element rule = .mismatch ↔
      (subject options element rule.field = none ∧ options.missing = .raise) ∨
      ∃ value, subject options element rule.field = some value ∧
        compareWith value rule.operator rule.operand options.ignoreCase = .mismatch := by
  unfold answer
  cases subject options element rule.field with
  | none => cases options.missing <;> simp [MissingPolicy.answer]
  | some value => simp

/-! ### Elements -/

/-- Holds of a rule of an element if all rules in front of it can be applied. -/
def ComesFirst (rules : List Rule) (options : Options) (element : Json) (rule : Rule) : Prop :=
  ComesTo (fun other => ¬ Inapplicable options element other) (fun other => other = rule) rules

/-- The fault of an element that cannot be judged. -/
inductive HasFault (rules : List Rule) (options : Options) (element : Json) : EvaluationFault → Prop
  | notAnObject (hobject : element.isObject = false) :
      HasFault rules options element (.notAnObject element.kind)
  | unlabelled (hobject : element.isObject = true) (hskipped : isSkipped options element = false)
      (hcount : options.countLabels = true) (hlabels : ¬ element.IsAnnotation) :
      HasFault rules options element (.unlabelled (flawOf element))
  | fieldNotFound {rule : Rule} (hchecked : IsChecked options element)
      (hfirst : ComesFirst rules options element rule)
      (hcounts : options.isIgnored rule.field = false)
      (habsent : subject options element rule.field = none)
      (hraise : options.missing = .raise) : HasFault rules options element (.fieldNotFound rule)
  | typeMismatch {rule : Rule} {value : Json} (hchecked : IsChecked options element)
      (hfirst : ComesFirst rules options element rule)
      (hcounts : options.isIgnored rule.field = false)
      (hpresent : subject options element rule.field = some value)
      (hcompare : compareWith value rule.operator rule.operand options.ignoreCase = .mismatch) :
      HasFault rules options element (.typeMismatch rule value.kind)

/-- The first rule that cannot be applied is where checking the rules ends. -/
theorem checkRules_of_comesFirst [DoublePrinter] {rule : Rule}
    (hfirst : ComesFirst rules options element rule) (hrule : Inapplicable options element rule) :
    checkRules options (subject options element) index rules =
      .error (faultOf options element rule) := by
  obtain ⟨earlier, _, later, hrules, hearlier, rfl⟩ := hfirst
  exact checkRules_eq_error_iff.2 ⟨earlier, _, later, hrules, hearlier, hrule, rfl⟩

theorem judge_of_hasFault [DoublePrinter] (h : HasFault rules options element fault) :
    judge rules options index element = .error fault := by
  cases h with
  | notAnObject hobject => simp [judge, hobject]
  | unlabelled hobject hskipped hcount hlabels =>
    simp only [judge, hobject, hskipped, subjects_eq_error hcount hlabels, Bool.not_true,
      Bool.false_eq_true, if_false]
    rfl
  | @fieldNotFound rule hchecked hfirst hcounts habsent hraise =>
    have hrule : Inapplicable options element rule :=
      ⟨hcounts, answer_eq_mismatch_iff.2 (Or.inl ⟨habsent, hraise⟩)⟩
    rw [judge_of_isChecked hchecked, checkRules_of_comesFirst hfirst hrule, faultOf, habsent]
    rfl
  | @typeMismatch rule value hchecked hfirst hcounts hpresent hcompare =>
    have hrule : Inapplicable options element rule :=
      ⟨hcounts, answer_eq_mismatch_iff.2 (Or.inr ⟨value, hpresent, hcompare⟩)⟩
    rw [judge_of_isChecked hchecked, checkRules_of_comesFirst hfirst hrule, faultOf, hpresent]
    rfl

/-- The fault of an element whose rules are checked is that of the first rule that cannot be
applied. -/
theorem hasFault_of_comesTo (hchecked : IsChecked options element)
    (h : ComesTo (fun rule => ¬ Inapplicable options element rule) (fun rule =>
      Inapplicable options element rule ∧ faultOf options element rule = fault) rules) :
    HasFault rules options element fault := by
  obtain ⟨earlier, rule, later, hrules, hearlier, ⟨hcounts, hmismatch⟩, rfl⟩ := h
  have hfirst : ComesFirst rules options element rule :=
    ⟨earlier, rule, later, hrules, hearlier, rfl⟩
  rcases answer_eq_mismatch_iff.1 hmismatch with ⟨habsent, hraise⟩ | ⟨value, hpresent, hcompare⟩
  · rw [show faultOf options element rule = .fieldNotFound rule by simp [faultOf, habsent]]
    exact .fieldNotFound hchecked hfirst hcounts habsent hraise
  · rw [show faultOf options element rule =
      .typeMismatch rule value.kind by simp [faultOf, hpresent]]
    exact .typeMismatch hchecked hfirst hcounts hpresent hcompare

theorem judge_eq_error_iff [DoublePrinter] :
    judge rules options index element = .error fault ↔ HasFault rules options element fault := by
  refine ⟨fun h => ?_, judge_of_hasFault⟩
  cases hobject : element.isObject with
  | false =>
    simp only [judge, hobject, Bool.not_false, if_true] at h
    cases h
    exact .notAnObject hobject
  | true =>
    cases hskipped : isSkipped options element with
    | true => simp [judge, hobject, hskipped] at h
    | false =>
      by_cases hlabels : options.countLabels = true → element.IsAnnotation
      · have hchecked : IsChecked options element := ⟨hobject, hskipped, hlabels⟩
        rw [judge_of_isChecked hchecked, map_eq_error_iff, checkRules_eq_error_iff] at h
        exact hasFault_of_comesTo hchecked h
      · obtain ⟨hcount, hnot⟩ := Classical.not_imp.1 hlabels
        have hfault : HasFault rules options element (.unlabelled (flawOf element)) :=
          .unlabelled hobject hskipped hcount hnot
        rw [judge_of_hasFault hfault] at h
        cases h
        exact hfault

theorem structurallyWrong_of_hasFault (h : HasFault rules options element fault) :
    StructurallyWrong rules options element := by
  by_contra hwell
  have hjudge : judge rules options 0 element = .error fault := judge_of_hasFault h
  rw [judge_eq_ok hwell] at hjudge
  cases hjudge

theorem HasFault.of_not_isObject (h : HasFault rules options element fault)
    (hobject : element.isObject = false) :
    fault = .notAnObject element.kind := by
  cases h with
  | notAnObject _ => rfl
  | unlabelled htrue _ _ _ => simp [hobject] at htrue
  | fieldNotFound hchecked _ _ _ _ => exact absurd hchecked.isObject (by simp [hobject])
  | typeMismatch hchecked _ _ _ _ => exact absurd hchecked.isObject (by simp [hobject])

/-- An object whose labels cannot be counted has that fault, whatever its rules. -/
theorem HasFault.of_not_isAnnotation (h : HasFault rules options element fault)
    (hobject : element.isObject = true) (hcount : options.countLabels = true)
    (hlabels : ¬ element.IsAnnotation) : fault = .unlabelled (flawOf element) := by
  cases h with
  | notAnObject hfalse => simp [hobject] at hfalse
  | unlabelled _ _ _ _ => rfl
  | fieldNotFound hchecked _ _ _ _ => exact absurd (hchecked.isAnnotation hcount) hlabels
  | typeMismatch hchecked _ _ _ _ => exact absurd (hchecked.isAnnotation hcount) hlabels

/-- Any other fault is that of the first rule that counts and cannot be applied. -/
theorem HasFault.exists_rule (h : HasFault rules options element fault)
    (hobject : element.isObject = true)
    (hlabels : options.countLabels = true → element.IsAnnotation) :
    ∃ rule, ComesFirst rules options element rule ∧ options.isIgnored rule.field = false ∧
      ((subject options element rule.field = none ∧ options.missing = .raise ∧
        fault = .fieldNotFound rule) ∨
        ∃ value, subject options element rule.field = some value ∧
          compareWith value rule.operator rule.operand options.ignoreCase = .mismatch ∧
          fault = .typeMismatch rule value.kind) := by
  cases h with
  | notAnObject hfalse => simp [hobject] at hfalse
  | unlabelled _ _ hcount hnot => exact absurd (hlabels hcount) hnot
  | fieldNotFound _ hfirst hcounts habsent hraise =>
    exact ⟨_, hfirst, hcounts, Or.inl ⟨habsent, hraise, rfl⟩⟩
  | typeMismatch _ hfirst hcounts hpresent hcompare =>
    exact ⟨_, hfirst, hcounts, Or.inr ⟨_, hpresent, hcompare, rfl⟩⟩

/-- A rule that can be applied, and counts, is satisfied or violated; an absent field that is
excused counts as the one or the other. -/
theorem answer_of_not_inapplicable {rule : Rule} (h : ¬ Inapplicable options element rule)
    (hcounts : options.isIgnored rule.field = false) :
    answer options element rule = .satisfied ∨ answer options element rule = .unsatisfied := by
  cases hanswer : answer options element rule with
  | satisfied => exact Or.inl rfl
  | unsatisfied => exact Or.inr rfl
  | mismatch => exact absurd ⟨hcounts, hanswer⟩ h

/-! ### Documents -/

variable {elements : List Json} {document : Json} {error : EvaluationError}

/-- Judging elements ends at the first that is structurally wrong, with its fault and its place. -/
theorem judgeFrom_eq_error_iff [DoublePrinter] :
    judgeFrom rules options index elements = .error error ↔
      ∃ before element after, elements = before ++ element :: after ∧
        error.element = index + before.length ∧
        (∀ other ∈ before, ¬ StructurallyWrong rules options other) ∧
          HasFault rules options element error.fault := by
  induction elements generalizing index with
  | nil => simp
  | cons first elements ih =>
    by_cases hwrong : StructurallyWrong rules options first
    · obtain ⟨fault, hfault⟩ : ∃ fault, judge rules options index first = .error fault :=
        exists_error_of_judge hwrong
      rw [judgeFrom_cons_of_error hfault]
      constructor
      · rintro ⟨⟩
        exact ⟨[], first, elements, rfl, rfl, by simp, judge_eq_error_iff.1 hfault⟩
      · rintro ⟨before, element, after, helements, hplace, hbefore, hhas⟩
        cases before with
        | nil =>
          cases helements
          rw [judge_of_hasFault hhas] at hfault
          cases hfault
          rw [show index = error.element from hplace.symm]
        | cons other before =>
          cases helements
          exact absurd hwrong (hbefore _ (List.mem_cons_self ..))
    · rw [judgeFrom_cons_of_ok (judge_eq_ok hwrong), map_eq_error_iff, ih]
      constructor
      · rintro ⟨before, element, after, rfl, hplace, hbefore, hhas⟩
        refine ⟨first :: before, element, after,
          rfl, by simp only [List.length_cons]; omega, ?_, hhas⟩
        exact List.forall_mem_cons.2 ⟨hwrong, hbefore⟩
      · rintro ⟨before, element, after, helements, hplace, hbefore, hhas⟩
        cases before with
        | nil =>
          cases helements
          exact absurd (structurallyWrong_of_hasFault hhas) hwrong
        | cons other before =>
          cases helements
          exact ⟨before, element, after, rfl, by simp only [List.length_cons] at hplace; omega,
            (List.forall_mem_cons.1 hbefore).2, hhas⟩

/-- A document has an error exactly if that is the fault of its first structurally wrong element. -/
theorem evaluate_eq_error_iff [DoublePrinter] :
    evaluate rules options document = .error error ↔
      ∃ before element after, document.elements = before ++ element :: after ∧
        error.element = before.length ∧
        (∀ other ∈ before, ¬ StructurallyWrong rules options other) ∧
          HasFault rules options element error.fault := by
  rw [evaluate, map_eq_error_iff, judgeFrom_eq_error_iff]
  simp only [Nat.zero_add]

theorem exists_error_evaluate_iff [DoublePrinter] :
    (∃ error, evaluate rules options document = .error error) ↔
      ∃ element ∈ document.elements, StructurallyWrong rules options element := by
  refine ⟨?_, exists_error_of_evaluate⟩
  rintro ⟨error, herror⟩
  obtain ⟨before, element, after, helements, -, -, hhas⟩ := evaluate_eq_error_iff.1 herror
  exact ⟨element, by simp [helements], structurallyWrong_of_hasFault hhas⟩

/-- An evaluation ends at a structurally wrong element or in front of it. -/
theorem exists_error_le [DoublePrinter] {before after : List Json}
    (helements : document.elements = before ++ element :: after)
    (hwrong : StructurallyWrong rules options element) :
    ∃ error, evaluate rules options document = .error error ∧ error.element ≤ before.length := by
  obtain ⟨error, herror⟩ : ∃ error, evaluate rules options document = .error error :=
    exists_error_of_evaluate ⟨element, by simp [helements], hwrong⟩
  refine ⟨error, herror, ?_⟩
  obtain ⟨first, other, rest, hfirst, hplace, hwell, -⟩ := evaluate_eq_error_iff.1 herror
  by_contra hlt
  -- the element would be one of those in front of the first that is wrong
  have hget : first[before.length]? = some element :=
    calc first[before.length]?
        = (first ++ other :: rest)[before.length]? := (List.getElem?_append_left (by omega)).symm
      _ = some element := by simp [← hfirst, helements]
  exact hwell element (List.mem_of_getElem? hget) hwrong

/-- If all elements that are wrong for some rules and options are wrong for others, then an error
for the first means one for the others, about the same element or an earlier one. -/
theorem exists_error_le_of_imp [DoublePrinter] {others : List Rule} {settings : Options}
    (himp : ∀ element ∈ document.elements, StructurallyWrong rules options element →
      StructurallyWrong others settings element)
    (herror : evaluate rules options document = .error error) :
    ∃ first, evaluate others settings document = .error first ∧ first.element ≤ error.element := by
  obtain ⟨before, element, after, helements, hplace, -, hhas⟩ := evaluate_eq_error_iff.1 herror
  rw [hplace]
  exact exists_error_le helements (himp element
    (by simp [helements]) (structurallyWrong_of_hasFault hhas))

/-- The error of a document is about the first element that is structurally wrong, and it stays the
same whatever is in front of that element and behind it, so that nothing of earlier violations is in
it. It tells the kind of an element that is no object; else that labels cannot be counted if they
have to be and cannot; else the first rule that counts and cannot be applied, be it for an absent
field or for a value that cannot be compared. -/
theorem evaluate_first_fault [DoublePrinter] (rules : List Rule) (options : Options)
    (document : Json) (error : EvaluationError)
    (h : evaluate rules options document = .error error) :
    ∃ before element after, document.elements = before ++ element :: after ∧
      error.element = before.length ∧
      StructurallyWrong rules options element ∧
      (∀ other ∈ before, ¬ StructurallyWrong rules options other) ∧
      (element.isObject = false → error.fault.kind = .notAnObject ∧
        error.fault.detail = element.kind.name) ∧
      (element.isObject = true → options.countLabels = true → ¬ element.IsAnnotation →
        error.fault.kind = .unlabelled) ∧
      (element.isObject = true → (options.countLabels = true → element.IsAnnotation) →
        ∃ earlier rule later, rules = earlier ++ rule :: later ∧
          (∀ other ∈ earlier, options.isIgnored other.field = false →
            answer options element other = .satisfied ∨
              answer options element other = .unsatisfied) ∧
          options.isIgnored rule.field = false ∧
          error.fault.ruleText = rule.canonical ∧ error.fault.field = rule.field ∧
          ((subject options element rule.field = none ∧ options.missing = .raise ∧
              error.fault.kind = .fieldNotFound) ∨
            ∃ value, subject options element rule.field = some value ∧
              compareWith value rule.operator rule.operand options.ignoreCase = .mismatch ∧
              error.fault.kind = .typeMismatch)) ∧
      ∀ others rest, others.length = before.length →
        (∀ other ∈ others, ¬ StructurallyWrong rules options other) →
        evaluate rules options (.array (others ++ element :: rest)) = .error error := by
  obtain ⟨before, element, after, helements, hplace, hbefore, hhas⟩ := evaluate_eq_error_iff.1 h
  refine ⟨before, element, after, helements, hplace, structurallyWrong_of_hasFault hhas,
    hbefore, ?_, ?_, ?_, ?_⟩
  · intro hobject
    rw [hhas.of_not_isObject hobject]
    exact ⟨rfl, rfl⟩
  · intro hobject hcount hlabels
    rw [hhas.of_not_isAnnotation hobject hcount hlabels]
    rfl
  · intro hobject hlabels
    obtain ⟨rule, ⟨earlier, _, later, hrules, hearlier, rfl⟩, hcounts, hrule⟩ :=
      hhas.exists_rule hobject hlabels
    refine ⟨earlier, _, later, hrules, fun other hother =>
      answer_of_not_inapplicable (hearlier other hother),
      hcounts, ?_⟩
    rcases hrule with ⟨habsent, hraise, hfault⟩ | ⟨value, hpresent, hcompare, hfault⟩
    · rw [hfault]
      exact ⟨rfl, rfl, Or.inl ⟨habsent, hraise, rfl⟩⟩
    · rw [hfault]
      exact ⟨rfl, rfl, Or.inr ⟨value, hpresent, hcompare, rfl⟩⟩
  · intro others rest hlength hothers
    exact evaluate_eq_error_iff.2 ⟨others, element, rest, rfl, hplace.trans hlength.symm,
      hothers, hhas⟩

/-- Behind a skipped element without the field and one that violates the rule, the third element
cannot be compared; the fourth is no object. -/
theorem evaluate_first_fault_of_mixed_array :
    ∃ rules options document error, evaluate rules options document = .error error ∧
      error.element = 2 ∧ error.fault.kind = .typeMismatch ∧ ∃ before element after,
        document.elements = before ++ element :: after ∧
        error.element = before.length ∧ StructurallyWrong rules options element := by
  have herror : evaluate [⟨utf8 "n", .less, .integer 3, []⟩] { ignores := [utf8 "draft"] }
      (.array [.object [(utf8 "flags", .object [(utf8 "draft", .bool true)])],
        .object [(utf8 "n", .integer 5)],
        .object [(utf8 "n", .null)], .integer 7]) =
      .error ⟨.typeMismatch ⟨utf8 "n", .less, .integer 3, []⟩ .null, 2⟩ := rfl
  obtain ⟨before, element, after, helements, hplace, hwrong, -⟩ :=
    evaluate_first_fault _ _ _ _ herror
  exact ⟨_, _, _, _, herror, rfl, rfl, before, element, after, helements, hplace, hwrong⟩

end FieldRules

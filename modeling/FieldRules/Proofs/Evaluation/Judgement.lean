import FieldRules.Evaluation.Basic
import FieldRules.Proofs.Evaluation.Labels
import FieldRules.Proofs.Sequence

/-!
# Judging elements

What an evaluation does, one element and one rule at a time.

* `answer`: the answer of a rule to an element, absent fields included.
* `StructurallyWrong`: the elements that cannot be judged.
* `verdictOf`: the verdict on any other element.
* `IsChecked`: the elements whose rules are checked.
* `evaluate_eq_ok`, `exists_error_of_evaluate`: a document is evaluated if none of its elements is
  structurally wrong, and then every element gets its verdict.
-/

namespace FieldRules

variable {rules : List Rule} {options : Options} {element : Json} {index : Nat}

/-! ### Rules -/

/-- The value that rules on a field are about: the member of an element, or the number of its shapes
with that label. -/
def subject (options : Options) (element : Json) (name : Bytes) : Option Json :=
  if options.countLabels then some (.integer (element.labelCount name)) else element.find? name

/-- The answer for an absent field. -/
def MissingPolicy.answer : MissingPolicy → Comparison
  | .raise => .mismatch
  | .pass => .satisfied
  | .fail => .unsatisfied

/-- The answer of a rule to an element: that of the comparison, or that of the policy if the field
is absent. -/
def answer (options : Options) (element : Json) (rule : Rule) : Comparison :=
  (subject options element rule.field).elim options.missing.answer fun value =>
    compareWith value rule.operator rule.operand options.ignoreCase

/-- What a rule that does not hold has found. -/
def actual [DoublePrinter] (options : Options) (element : Json) (rule : Rule) : Bytes :=
  (subject options element rule.field).elim missingValue Json.write

/-- Why a rule cannot be applied. -/
def faultOf (options : Options) (element : Json) (rule : Rule) : EvaluationFault :=
  (subject options element rule.field).elim (.fieldNotFound rule) fun value =>
    .typeMismatch rule value.kind

theorem checkRule_subject [DoublePrinter] (options : Options) (element : Json) (rule : Rule) :
    checkRule options (subject options element rule.field) rule =
      match answer options element rule with
      | .satisfied => .ok none
      | .unsatisfied => .ok (some (actual options element rule))
      | .mismatch => .error (faultOf options element rule) := by
  unfold answer actual faultOf
  cases subject options element rule.field with
  | none => cases hmissing : options.missing <;> simp [checkRule, hmissing, MissingPolicy.answer]
  | some value =>
    cases hcompare : compareWith value rule.operator rule.operand options.ignoreCase <;>
      simp [checkRule, hcompare]

/-- Holds of a rule that counts and does not hold. -/
def Violates (options : Options) (element : Json) (rule : Rule) : Prop :=
  options.isIgnored rule.field = false ∧ answer options element rule = .unsatisfied

/-- Holds of a rule that counts and cannot be applied. -/
def Inapplicable (options : Options) (element : Json) (rule : Rule) : Prop :=
  options.isIgnored rule.field = false ∧ answer options element rule = .mismatch

instance (rule : Rule) :
    Decidable (Violates options element rule) := inferInstanceAs (Decidable (_ ∧ _))

instance (rule : Rule) :
    Decidable (Inapplicable options element rule) := inferInstanceAs (Decidable (_ ∧ _))

/-- The violations of an element, in the order of the rules. -/
def violationsOf [DoublePrinter] (rules : List Rule) (options : Options) (index : Nat)
    (element : Json) : List Violation :=
  (rules.filter fun rule => Violates options element rule).map fun rule =>
    ⟨rule.canonical, index, actual options element rule⟩

/-- The first of several rules cannot be applied, is violated, or leaves nothing. -/
theorem checkRules_cons [DoublePrinter] (rule : Rule) (rules : List Rule) :
    checkRules options (subject options element) index (rule :: rules) =
      if Inapplicable options element rule then .error (faultOf options element rule)
      else (checkRules options (subject options element) index rules).map fun violations =>
        if Violates options element rule then ⟨rule.canonical, index,
          actual options element rule⟩ :: violations
        else violations := by
  rw [checkRules, checkRule_subject]
  generalize checkRules options (subject options element) index rules = rest
  cases hignored : options.isIgnored rule.field with
  | true => cases rest <;> simp [Inapplicable, Violates, hignored] <;> rfl
  | false =>
    cases hanswer : answer options element rule <;> cases rest <;>
      simp [Inapplicable, Violates, hignored, hanswer] <;> rfl

/-- Rules that can be applied are checked one after the other, and give one violation each if they
are violated. -/
theorem checkRules_eq_ok [DoublePrinter] (h : ∀ rule ∈ rules, ¬ Inapplicable options element rule) :
    checkRules options (subject options element) index rules =
      .ok (violationsOf rules options index element) := by
  induction rules with
  | nil => rfl
  | cons rule rules ih =>
    have hrest := ih fun other hother => h other (List.mem_cons_of_mem _ hother)
    rw [checkRules_cons, if_neg (h rule (List.mem_cons_self ..)), hrest]
    by_cases hviolates : Violates options element rule
    · simp [Except.map, violationsOf, hviolates]
    · simp [Except.map, violationsOf, hviolates]

theorem exists_error_of_checkRules [DoublePrinter]
    (h : ∃ rule ∈ rules, Inapplicable options element rule) :
    ∃ fault, checkRules options (subject options element) index rules = .error fault := by
  induction rules with
  | nil => simp at h
  | cons rule rules ih =>
    rw [checkRules_cons]
    by_cases hrule : Inapplicable options element rule
    · exact ⟨_, if_pos hrule⟩
    · obtain ⟨fault, hfault⟩ := ih (by simpa [hrule] using h)
      rw [if_neg hrule, hfault]
      exact ⟨fault, rfl⟩

/-! ### Elements -/

theorem subjects_eq_ok (h : options.countLabels = true → element.IsAnnotation) :
    subjects options element = .ok (subject options element) := by
  unfold subjects subject
  cases hcount : options.countLabels with
  | true =>
    obtain ⟨labels, hlabels, hcounts⟩ := shapeLabels_of_isAnnotation (h hcount)
    simp [hlabels, hcounts]
  | false => rfl

theorem subjects_eq_error (hcount : options.countLabels = true) (h : ¬ element.IsAnnotation) :
    subjects options element = .error (.unlabelled (flawOf element)) := by
  simp [subjects, hcount, shapeLabels_of_not_isAnnotation h]

/-- Holds of an element that cannot be judged: it is no object, or it is not skipped and its labels
have to be counted and cannot be, or it is not skipped and some rule cannot be applied to it. -/
def StructurallyWrong (rules : List Rule) (options : Options) (element : Json) : Prop :=
  element.isObject = false ∨
  (isSkipped options element = false ∧ options.countLabels = true ∧ ¬ element.IsAnnotation) ∨
  (isSkipped options element = false ∧ ∃ rule ∈ rules, Inapplicable options element rule)

/-- The verdict on an element that can be judged. -/
def verdictOf [DoublePrinter] (rules : List Rule) (options : Options) (index : Nat)
    (element : Json) : Verdict :=
  if isSkipped options element then .skipped else
    .checked (violationsOf rules options index element)

/-- Holds of an element whose rules are checked: an object that is not skipped, with labels if they
have to be counted. -/
structure IsChecked (options : Options) (element : Json) : Prop where
  isObject : element.isObject = true
  not_isSkipped : isSkipped options element = false
  isAnnotation : options.countLabels = true → element.IsAnnotation

theorem judge_of_isChecked [DoublePrinter] (h : IsChecked options element) :
    judge rules options index element =
      (checkRules options (subject options element) index rules).map .checked := by
  unfold judge
  simp only [h.isObject, h.not_isSkipped, subjects_eq_ok h.isAnnotation, Bool.not_true,
    Bool.false_eq_true, if_false]
  show (checkRules options (subject options element) index rules >>= _) = _
  cases checkRules options (subject options element) index rules <;> rfl

theorem judge_eq_ok [DoublePrinter] (h : ¬ StructurallyWrong rules options element) :
    judge rules options index element = .ok (verdictOf rules options index element) := by
  simp only [StructurallyWrong, not_or, not_and, not_exists] at h
  obtain ⟨hobject, hlabels, hrules⟩ := h
  have hobject : element.isObject = true := by simpa using hobject
  unfold verdictOf
  cases hskipped : isSkipped options element with
  | true => simp [judge, hobject, hskipped]
  | false =>
    have hchecked : IsChecked options element :=
      ⟨hobject, hskipped, fun hcount => Classical.not_not.1 (hlabels hskipped hcount)⟩
    rw [judge_of_isChecked hchecked, checkRules_eq_ok (hrules hskipped)]
    rfl

theorem exists_error_of_judge [DoublePrinter] (h : StructurallyWrong rules options element) :
    ∃ fault, judge rules options index element = .error fault := by
  cases hobject : element.isObject with
  | false => exact ⟨.notAnObject element.kind, by simp [judge, hobject]⟩
  | true =>
    simp only [StructurallyWrong, hobject, Bool.true_eq_false, false_or] at h
    have hskipped : isSkipped options element = false := by
      rcases h with ⟨hskipped, -⟩ | ⟨hskipped, -⟩ <;> exact hskipped
    -- labels are counted before the first rule is checked
    by_cases hlabels : options.countLabels = true → element.IsAnnotation
    · rcases h with ⟨_, hcount, hnot⟩ | ⟨-, hrules⟩
      · exact absurd (hlabels hcount) hnot
      · obtain ⟨fault, hfault⟩ : ∃ fault,
            checkRules options (subject options element) index rules = .error fault :=
          exists_error_of_checkRules hrules
        exact ⟨fault, by rw [judge_of_isChecked ⟨hobject, hskipped, hlabels⟩, hfault]; rfl⟩
    · obtain ⟨hcount, hnot⟩ := Classical.not_imp.1 hlabels
      refine ⟨.unlabelled (flawOf element), ?_⟩
      simp only [judge, hobject, hskipped, Bool.not_true, Bool.false_eq_true, if_false,
        subjects_eq_error hcount hnot]
      rfl

/-! ### Documents -/

variable {elements : List Json} {document : Json}

theorem Json.elements_of_not_array (h : ∀ items, document ≠ .array items) :
    document.elements = [document] := by
  cases document with
  | array items => exact absurd rfl (h items)
  | _ => rfl

theorem judgeFrom_cons_of_ok [DoublePrinter] {verdict : Verdict}
    (h : judge rules options index element = .ok verdict) :
    judgeFrom rules options index (element :: elements) =
      (judgeFrom rules options (index + 1) elements).map (verdict :: ·) := by
  rw [judgeFrom, h]
  show (judgeFrom rules options (index + 1) elements >>= _) = _
  cases judgeFrom rules options (index + 1) elements <;> rfl

theorem judgeFrom_cons_of_error [DoublePrinter] {fault : EvaluationFault}
    (h : judge rules options index element = .error fault) :
    judgeFrom rules options index (element :: elements) = .error ⟨fault, index⟩ := by
  rw [judgeFrom, h]
  rfl

theorem judgeFrom_eq_ok [DoublePrinter]
    (h : ∀ element ∈ elements, ¬ StructurallyWrong rules options element) :
    judgeFrom rules options index elements =
      .ok ((elements.zipIdx index).map fun place => verdictOf rules options place.2 place.1) := by
  induction elements generalizing index with
  | nil => rfl
  | cons element elements ih =>
    have hrest := @ih (index + 1) fun other hother => h other (List.mem_cons_of_mem _ hother)
    rw [judgeFrom_cons_of_ok (judge_eq_ok (h element (List.mem_cons_self ..))), hrest]
    rfl

theorem exists_error_of_judgeFrom [DoublePrinter]
    (h : ∃ element ∈ elements, StructurallyWrong rules options element) :
    ∃ error, judgeFrom rules options index elements = .error error := by
  induction elements generalizing index with
  | nil => simp at h
  | cons element elements ih =>
    by_cases helement : StructurallyWrong rules options element
    · obtain ⟨fault, hfault⟩ : ∃ fault, judge rules options index element = .error fault :=
        exists_error_of_judge helement
      exact ⟨_, judgeFrom_cons_of_error hfault⟩
    · obtain ⟨error, herror⟩ := @ih (index + 1) (by simpa [helement] using h)
      rw [judgeFrom_cons_of_ok (judge_eq_ok helement), herror]
      exact ⟨error, rfl⟩

/-- The report on a document without a structurally wrong element. -/
theorem evaluate_eq_ok [DoublePrinter]
    (h : ∀ element ∈ document.elements, ¬ StructurallyWrong rules options element) :
    evaluate rules options document =
      .ok (.ofVerdicts (document.elements.zipIdx.map fun place =>
        verdictOf rules options place.2 place.1)) := by
  rw [evaluate, judgeFrom_eq_ok h]
  rfl

theorem exists_error_of_evaluate [DoublePrinter]
    (h : ∃ element ∈ document.elements, StructurallyWrong rules options element) :
    ∃ error, evaluate rules options document = .error error := by
  obtain ⟨error, herror⟩ : ∃ error, judgeFrom rules options 0 document.elements = .error error :=
    exists_error_of_judgeFrom h
  exact ⟨error, by rw [evaluate, herror]; rfl⟩

end FieldRules

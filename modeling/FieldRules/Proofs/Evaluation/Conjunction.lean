import FieldRules.Proofs.Evaluation.Contents
import FieldRules.Proofs.Evaluation.FirstFault

/-!
# Lists of rules

A list of rules means the conjunction of its rules: rules in front of others come to what both lists
come to, and neither the order of rules nor how often one is given counts for the outcome.

* `structurallyWrong_append_iff`, `HasFault.append_left`, `HasFault.append_right`,
  `violationsOf_append`: rules in front of others, on one element.
* `Report.violationsAt`: the violations of one element in a report.
* `relate_eq_of_sameValue`, `answer_eq_of_sameMeaning`: rules of the same meaning answer alike.
* `SameRules`: lists of the same rules, whatever their order and number.
* `evaluate_append_rules`: rules in front of others, and lists of the same rules, on a document.
-/

namespace FieldRules

variable {first second : List Rule} {options : Options} {element : Json} {document : Json}

/-! ### Elements -/

theorem structurallyWrong_append_iff :
    StructurallyWrong (first ++ second) options element ↔
      StructurallyWrong first options element ∨ StructurallyWrong second options element := by
  unfold StructurallyWrong
  simp only [List.mem_append, or_and_right, exists_or, and_or_left]
  constructor
  · rintro (hobject | hlabels | hfirst | hsecond)
    · exact Or.inl (Or.inl hobject)
    · exact Or.inl (Or.inr (Or.inl hlabels))
    · exact Or.inl (Or.inr (Or.inr hfirst))
    · exact Or.inr (Or.inr (Or.inr hsecond))
  · rintro ((hobject | hlabels | hfirst) | (hobject | hlabels | hsecond))
    · exact Or.inl hobject
    · exact Or.inr (Or.inl hlabels)
    · exact Or.inr (Or.inr (Or.inl hfirst))
    · exact Or.inl hobject
    · exact Or.inr (Or.inl hlabels)
    · exact Or.inr (Or.inr (Or.inr hsecond))

/-- The fault that an element has for some rules is its fault for others if the rule that comes
first among the ones does so among the others. -/
theorem HasFault.of_comesFirst {fault : EvaluationFault}
    (hcomes : ∀ rule, isSkipped options element = false → ComesFirst first options element rule →
      ComesFirst second options element rule) (h : HasFault first options element fault) :
    HasFault second options element fault := by
  cases h with
  | notAnObject hobject => exact .notAnObject hobject
  | unlabelled hobject hskipped hcount hlabels => exact .unlabelled hobject hskipped hcount hlabels
  | @fieldNotFound rule hchecked hfirst hcounts habsent hraise =>
    exact .fieldNotFound hchecked (hcomes rule hchecked.not_isSkipped hfirst) hcounts habsent hraise
  | @typeMismatch rule _ hchecked hfirst hcounts hpresent hcompare =>
    exact .typeMismatch hchecked (hcomes rule hchecked.not_isSkipped hfirst) hcounts
      hpresent hcompare

theorem HasFault.append_left {fault : EvaluationFault} (h : HasFault first options element fault) :
    HasFault (first ++ second) options element fault := by
  refine h.of_comesFirst ?_
  rintro _ - ⟨earlier, rule, later, hrules, hearlier, rfl⟩
  exact ⟨earlier, rule, later ++ second, by simp [hrules], hearlier, rfl⟩

/-- The fault that an element has for rules is its fault for them behind others for which it is not
wrong. -/
theorem HasFault.append_right {fault : EvaluationFault}
    (hwell : ¬ StructurallyWrong first options element)
    (h : HasFault second options element fault) :
    HasFault (first ++ second) options element fault := by
  refine h.of_comesFirst ?_
  rintro _ hskipped ⟨earlier, rule, later, hrules, hearlier, rfl⟩
  refine ⟨first ++ earlier, rule, later, by simp [hrules], ?_, rfl⟩
  intro other hother hinapplicable
  rcases List.mem_append.1 hother with hother | hother
  · exact hwell (Or.inr (Or.inr ⟨hskipped, other, hother, hinapplicable⟩))
  · exact hearlier other hother hinapplicable

theorem violationsOf_append [DoublePrinter] (first second : List Rule) (index : Nat)
    (element : Json) :
    violationsOf (first ++ second) options index element =
      violationsOf first options index element ++ violationsOf second options index element := by
  simp [violationsOf]

theorem hasViolation_append_iff :
    HasViolation (first ++ second) options element ↔
      HasViolation first options element ∨ HasViolation second options element := by
  simp only [HasViolation, List.mem_append, or_and_right, exists_or, and_or_left]

/-! ### Errors -/

/-- If there is no error in front of a place, no element in front of it is wrong. -/
theorem not_structurallyWrong_of_le [DoublePrinter] {rules : List Rule} {before after : List Json}
    (helements : document.elements = before ++ after)
    (h : ∀ error, evaluate rules options document = .error error → before.length ≤ error.element) :
    ∀ element ∈ before, ¬ StructurallyWrong rules options element := by
  intro element helement hwrong
  obtain ⟨earlier, later, rfl⟩ : ∃ earlier later, before = earlier ++ element :: later :=
    List.append_of_mem helement
  have hplaces : document.elements = earlier ++ element :: (later ++ after) := by simp [helements]
  obtain ⟨error, herror, hplace⟩ := exists_error_le hplaces hwrong
  have hle : (earlier ++ element :: later).length ≤ error.element := h error herror
  simp only [List.length_append, List.length_cons] at hle
  omega

theorem exists_error_append_iff [DoublePrinter] :
    (∃ error, evaluate (first ++ second) options document = .error error) ↔
      (∃ error, evaluate first options document = .error error) ∨
        ∃ error, evaluate second options document = .error error := by
  simp only [exists_error_evaluate_iff, structurallyWrong_append_iff, and_or_left, exists_or]

variable {error : EvaluationError}

/-- An error for rules is the error for them in front of others that have none about an earlier
element. -/
theorem evaluate_append_rules_left [DoublePrinter]
    (herror : evaluate first options document = .error error)
    (hle : ∀ other, evaluate second options document = .error other →
      error.element ≤ other.element) :
    evaluate (first ++ second) options document = .error error := by
  obtain ⟨before, element, after, helements, hplace, hfirst, hhas⟩ := evaluate_eq_error_iff.1 herror
  have hsecond : ∀ other ∈ before, ¬ StructurallyWrong second options other :=
    not_structurallyWrong_of_le helements fun other hother => hplace ▸ hle other hother
  have hbefore : ∀ other ∈ before, ¬ StructurallyWrong (first ++ second) options other := by
    intro other hother hwrong
    exact (structurallyWrong_append_iff.1 hwrong).elim (hfirst other hother) (hsecond other hother)
  exact evaluate_eq_error_iff.2 ⟨before, element, after, helements, hplace, hbefore,
    hhas.append_left⟩

/-- An error for rules is the error for them behind others that have none about the same element or
an earlier one. -/
theorem evaluate_append_rules_right [DoublePrinter]
    (herror : evaluate second options document = .error error)
    (hlt : ∀ other, evaluate first options document = .error other →
      error.element < other.element) :
    evaluate (first ++ second) options document = .error error := by
  obtain ⟨before, element, after, helements, hplace, hsecond, hhas⟩ :=
    evaluate_eq_error_iff.1 herror
  have hplaces : document.elements = (before ++ [element]) ++ after := by simp [helements]
  have hfirst : ∀ other ∈ before ++ [element], ¬ StructurallyWrong first options other := by
    refine not_structurallyWrong_of_le hplaces fun other hother => ?_
    have hother : error.element < other.element := hlt other hother
    simp only [List.length_append, List.length_singleton]
    omega
  have hbefore : ∀ other ∈ before, ¬ StructurallyWrong (first ++ second) options other := by
    intro other hother hwrong
    exact (structurallyWrong_append_iff.1 hwrong).elim (hfirst other (by simp [hother]))
      (hsecond other hother)
  exact evaluate_eq_error_iff.2
    ⟨before, element, after, helements, hplace, hbefore,
      hhas.append_right (hfirst element (by simp))⟩

/-! ### Reports -/

/-- The violations of the element at a place. -/
def Report.violationsAt (report : Report) (index : Nat) : List Violation :=
  report.violations.filter fun violation => violation.element = index

/-- Of lists that belong to the places of a list, those that belong to one place. -/
theorem flatMap_zipIdx_ite {α β : Type} (items : List α) (f : α → List β) (start index : Nat) :
    ((items.zipIdx start).flatMap fun place => if place.2 = start + index then f place.1 else []) =
      items[index]?.elim [] f := by
  induction items generalizing start index with
  | nil => rfl
  | cons item items ih =>
    rw [List.zipIdx_cons, List.flatMap_cons]
    cases index with
    | zero =>
      have hrest : ∀ place ∈ items.zipIdx (start + 1),
          (if place.2 = start + 0 then f place.1 else []) = [] := by
        intro place hplace
        have hlt : start + 1 ≤ place.2 := List.le_snd_of_mem_zipIdx hplace
        rw [if_neg (by omega)]
      rw [List.flatMap_eq_nil_iff.2 hrest]
      simp
    | succ index =>
      have hfirst : start ≠ start + (index + 1) := by omega
      have hshift : start + (index + 1) = start + 1 + index := by omega
      rw [if_neg hfirst, hshift, ih, List.nil_append, List.getElem?_cons_succ]

/-- A report has, of the element at a place, what the element violates, unless it is skipped. -/
theorem violationsAt_reportOn [DoublePrinter] (rules : List Rule) (options : Options)
    (document : Json) (index : Nat) :
    (reportOn rules options document).violationsAt index =
      document.elements[index]?.elim [] fun element =>
      if isSkipped options element then [] else violationsOf rules options index element := by
  have hplace (element : Json) (place : Nat) :
      ((if isSkipped options element then [] else
        violationsOf rules options place element).filter fun violation =>
        violation.element = index) =
      if place = 0 + index then (if isSkipped options element then [] else
        violationsOf rules options index element)
      else [] := by
    rw [Nat.zero_add]
    cases isSkipped options element with
    | true => simp
    | false => by_cases hindex : place = index <;>
        simp [violationsOf, List.filter_map, Function.comp_def, hindex]
  rw [Report.violationsAt, violations_reportOn, List.filter_flatMap]
  simp only [hplace]
  exact flatMap_zipIdx_ite document.elements
    (fun element => if isSkipped options element then [] else
      violationsOf rules options index element) 0 index

theorem violationsAt_reportOn_append [DoublePrinter] (first second : List Rule)
    (options : Options) (document : Json) (index : Nat) :
    (reportOn (first ++ second) options document).violationsAt index =
      (reportOn first options document).violationsAt index ++
        (reportOn second options document).violationsAt index := by
  simp only [violationsAt_reportOn, violationsOf_append]
  cases document.elements[index]? with
  | none => rfl
  | some element => cases hskipped : isSkipped options element <;> simp [hskipped]

theorem Report.outcome_congr {report other : Report}
    (hviolations : report.violations ≠ [] ↔ other.violations ≠ [])
    (hskipped : report.skipped = other.skipped) : report.outcome = other.outcome := by
  have hempty : report.violations.isEmpty = other.violations.isEmpty := by
    rw [Bool.eq_iff_iff, List.isEmpty_iff, List.isEmpty_iff]
    exact not_iff_not.1 hviolations
  rw [outcome, outcome, hempty, hskipped]

theorem violations_reportOn_append_ne_nil_iff [DoublePrinter] :
    (reportOn (first ++ second) options document).violations ≠ [] ↔
      (reportOn first options document).violations ≠ [] ∨
        (reportOn second options document).violations ≠ [] := by
  simp only [violations_reportOn_ne_nil_iff, hasViolation_append_iff, and_or_left, exists_or]

theorem outcome_reportOn_append_eq_failed_iff [DoublePrinter] :
    (reportOn (first ++ second) options document).outcome = .failed ↔
      (reportOn first options document).outcome = .failed ∨
        (reportOn second options document).outcome = .failed := by
  simp only [Report.outcome_eq_failed_iff, violations_reportOn_append_ne_nil_iff]

/-- Rules in front of others come to what the ones and the others come to, if they have not
failed. -/
theorem outcome_reportOn_append [DoublePrinter]
    (h : (reportOn (first ++ second) options document).outcome ≠ .failed) :
    (reportOn (first ++ second) options document).outcome =
      (reportOn first options document).outcome ∧
      (reportOn (first ++ second) options document).outcome =
        (reportOn second options document).outcome := by
  rw [ne_eq, Report.outcome_eq_failed_iff] at h
  obtain ⟨hfirst, hsecond⟩ := not_or.1 (violations_reportOn_append_ne_nil_iff.not.1 h)
  exact ⟨Report.outcome_congr (iff_of_false h hfirst) (by rw [skipped_reportOn, skipped_reportOn]),
    Report.outcome_congr (iff_of_false h hsecond) (by rw [skipped_reportOn, skipped_reportOn])⟩

/-! ### Rules of the same meaning -/

/-- Numbers that are equal stand alike to any number. -/
theorem Binary64.order?_congr_of_sameNumber {y z : Binary64} (h : y.sameNumber z = true)
    (x : Binary64) :
    x.order? y = x.order? z := by
  have horder : y.order? z = some .eq := by simpa [sameNumber] using h
  have hextent : y.extent = z.extent := by
    unfold order? at horder
    split at horder
    · next a b hy hz =>
      rw [hy, hz, Std.LawfulEqOrd.eq_of_compare (Option.some.inj horder)]
    · cases horder
  unfold order?
  rw [hextent]

/-- A value stands alike to literals of the same value. -/
theorem relate_eq_of_sameValue {operand other : Literal} (h : operand.sameValue other = true)
    (ignoreCase : Bool) (value : Json) :
    relate ignoreCase value operand = relate ignoreCase value other := by
  cases operand with
  | integer m => cases other <;> simp_all [Literal.sameValue]
  | bool a => cases other <;> simp_all [Literal.sameValue]
  | string s => cases other <;> simp_all [Literal.sameValue]
  | double x =>
    cases other with
    | double y =>
      have horder := Binary64.order?_congr_of_sameNumber (show x.sameNumber y = true from h)
      cases value <;> simp [relate, horder]
    | _ => simp [Literal.sameValue] at h

/-- Rules of the same meaning are on the same field and answer alike. -/
theorem answer_eq_of_sameMeaning {rule other : Rule} (h : rule.sameMeaning other = true) :
    rule.field = other.field ∧ ∀ options element,
      answer options element rule = answer options element other := by
  simp only [Rule.sameMeaning, Bool.and_eq_true, beq_iff_eq] at h
  obtain ⟨⟨hfield, hoperator⟩, hoperand⟩ := h
  refine ⟨hfield, fun options element => ?_⟩
  simp only [answer, hfield, hoperator, compareWith, relate_eq_of_sameValue hoperand]

/-- Holds of rules that are the same or have the same meaning, however they were written. -/
def Rule.Agrees (rule other : Rule) : Prop :=
  rule = other ∨ rule.sameMeaning other = true

namespace Rule.Agrees

variable {rule other : Rule}

theorem field_eq (h : rule.Agrees other) : rule.field = other.field := by
  rcases h with rfl | h
  · rfl
  · exact (answer_eq_of_sameMeaning h).1

theorem answer_eq (h : rule.Agrees other) (options : Options) (element : Json) :
    answer options element rule = answer options element other := by
  rcases h with rfl | h
  · rfl
  · exact (answer_eq_of_sameMeaning h).2 options element

theorem inapplicable_iff (h : rule.Agrees other) :
    Inapplicable options element rule ↔ Inapplicable options element other := by
  rw [Inapplicable, Inapplicable, h.field_eq, h.answer_eq]

theorem violates_iff (h : rule.Agrees other) :
    Violates options element rule ↔ Violates options element other := by
  rw [Violates, Violates, h.field_eq, h.answer_eq]

end Rule.Agrees

/-- Two lists of the same rules, whatever their order and number and however they were written. -/
structure SameRules (first second : List Rule) : Prop where
  forward : ∀ rule ∈ first, ∃ other ∈ second, rule.Agrees other
  backward : ∀ other ∈ second, ∃ rule ∈ first, rule.Agrees other

namespace SameRules

theorem of_mem_iff (h : ∀ rule, rule ∈ first ↔ rule ∈ second) : SameRules first second where
  forward rule hrule := ⟨rule, (h rule).1 hrule, Or.inl rfl⟩
  backward rule hrule := ⟨rule, (h rule).2 hrule, Or.inl rfl⟩

theorem exists_mem_iff (h : SameRules first second) {p : Rule → Prop}
    (hp : ∀ rule other : Rule, rule.Agrees other → (p rule ↔ p other)) :
    (∃ rule ∈ first, p rule) ↔ ∃ rule ∈ second, p rule := by
  constructor
  · rintro ⟨rule, hrule, hholds⟩
    obtain ⟨other, hother, hagrees⟩ := h.forward rule hrule
    exact ⟨other, hother, (hp rule other hagrees).1 hholds⟩
  · rintro ⟨other, hother, hholds⟩
    obtain ⟨rule, hrule, hagrees⟩ := h.backward other hother
    exact ⟨rule, hrule, (hp rule other hagrees).2 hholds⟩

theorem structurallyWrong_iff (h : SameRules first second) :
    StructurallyWrong first options element ↔ StructurallyWrong second options element := by
  unfold StructurallyWrong
  rw [h.exists_mem_iff fun _ _ hagrees => hagrees.inapplicable_iff]

theorem hasViolation_iff (h : SameRules first second) :
    HasViolation first options element ↔ HasViolation second options element := by
  unfold HasViolation
  rw [h.exists_mem_iff fun _ _ hagrees => hagrees.violates_iff]

/-- Lists of the same rules have errors about the same element. -/
theorem exists_error [DoublePrinter] (h : SameRules first second) {error : EvaluationError}
    (herror : evaluate first options document = .error error) :
    ∃ other, evaluate second options document = .error other ∧ other.element = error.element := by
  obtain ⟨other, hother, hle⟩ :=
    exists_error_le_of_imp (fun _ _ => h.structurallyWrong_iff.1) herror
  obtain ⟨again, hagain, hge⟩ :=
    exists_error_le_of_imp (fun _ _ => h.structurallyWrong_iff.2) hother
  rw [herror] at hagain
  cases hagain
  exact ⟨other, hother, Nat.le_antisymm hle hge⟩

/-- Lists of the same rules have reports of the same outcome. -/
theorem exists_report [DoublePrinter] (h : SameRules first second) {report : Report}
    (hreport : evaluate first options document = .ok report) :
    ∃ other, evaluate second options document = .ok other ∧ other.outcome = report.outcome := by
  obtain ⟨hwell, rfl⟩ := evaluate_eq_ok_iff.1 hreport
  have hother : evaluate second options document = .ok (reportOn second options document) :=
    evaluate_eq_ok fun element helement hwrong =>
      hwell element helement (h.structurallyWrong_iff.2 hwrong)
  refine ⟨reportOn second options document, hother, Report.outcome_congr ?_ ?_⟩
  · simp only [violations_reportOn_ne_nil_iff, h.hasViolation_iff]
  · rw [skipped_reportOn, skipped_reportOn]

end SameRules

/-! ### The conjunction -/

/-- A report for rules in front of others, from those for the ones and for the others. -/
structure Report.Joins (report first second : Report) : Prop where
  elements : report.elements = first.elements ∧ report.elements = second.elements
  skipped : report.skipped = first.skipped ∧ report.skipped = second.skipped
  failed_iff : report.outcome = .failed ↔ first.outcome = .failed ∨ second.outcome = .failed
  outcome : report.outcome ≠ .failed → report.outcome = first.outcome ∧
    report.outcome = second.outcome
  violationsAt : ∀ index,
    report.violationsAt index = first.violationsAt index ++ second.violationsAt index

theorem joins_reportOn_append [DoublePrinter] (first second : List Rule) (options : Options)
    (document : Json) :
    (reportOn (first ++ second) options document).Joins (reportOn first options document)
      (reportOn second options document) where
  elements := by simp only [elements_reportOn, and_self]
  skipped := by simp only [skipped_reportOn, and_self]
  failed_iff := outcome_reportOn_append_eq_failed_iff
  outcome := outcome_reportOn_append
  violationsAt := violationsAt_reportOn_append first second options document

/-- A list of rules means their conjunction.
* Rules in front of others lead to an error if the ones or the others do: to that of the ones,
  unless that of the others is about an earlier element. Otherwise both have a report, and so have
  the rules together: with the same counts, failed if either has failed and else of the same
  outcome, and with the violations of every element by the ones and then by the others.
* Lists of the same rules, in any order and number, lead to errors about the same element, or to
  reports of the same outcome. -/
theorem evaluate_append_rules [DoublePrinter] (first second : List Rule) (options : Options)
    (document : Json) :
    ((∃ error, evaluate (first ++ second) options document = .error error) ↔
      (∃ error, evaluate first options document = .error error) ∨
        ∃ error, evaluate second options document = .error error) ∧
    (∀ error, evaluate first options document = .error error →
      (∀ other, evaluate second options document = .error other → error.element ≤ other.element) →
      evaluate (first ++ second) options document = .error error) ∧
    (∀ error, evaluate second options document = .error error →
      (∀ other, evaluate first options document = .error other → error.element < other.element) →
      evaluate (first ++ second) options document = .error error) ∧
    (∀ one other, evaluate first options document = .ok one →
      evaluate second options document = .ok other →
      ∃ report, evaluate (first ++ second) options document = .ok report ∧ report.Joins one other) ∧
    (SameRules first second →
      (∀ error, evaluate first options document = .error error →
        ∃ other, evaluate second options document = .error other ∧ other.element = error.element) ∧
      ∀ report, evaluate first options document = .ok report →
        ∃ other, evaluate second options document = .ok other ∧
          other.outcome = report.outcome) := by
  refine ⟨exists_error_append_iff, fun _ => evaluate_append_rules_left, fun _ =>
    evaluate_append_rules_right, ?_,
    fun hsame => ⟨fun _ => hsame.exists_error, fun _ => hsame.exists_report⟩⟩
  intro one other hone hother
  obtain ⟨hfirst, rfl⟩ := evaluate_eq_ok_iff.1 hone
  obtain ⟨hsecond, rfl⟩ := evaluate_eq_ok_iff.1 hother
  have hwell : ∀ element ∈ document.elements,
      ¬ StructurallyWrong (first ++ second) options element := by
    intro element helement hwrong
    exact (structurallyWrong_append_iff.1 hwrong).elim (hfirst element helement)
      (hsecond element helement)
  exact ⟨reportOn (first ++ second) options document, evaluate_eq_ok hwell,
    joins_reportOn_append first second options document⟩

/-- A field is absent in the second element, and another cannot be compared in the first: that is
the error, although its rule stands behind; and if it stands in front as well, the error is about
the same element. -/
theorem evaluate_append_rules_of_earlier_error :
    ∃ m n : Rule, ∃ options document, ∃ later error : EvaluationError,
      evaluate [m] options document = .error later ∧ later.element = 1 ∧
      evaluate [n] options document = .error error ∧ error.element = 0 ∧
      evaluate ([m] ++ [n]) options document = .error error ∧
      ∃ other, evaluate [n, m, n] options document = .error other ∧ other.element = 0 := by
  obtain ⟨m, hm⟩ : ∃ rule : Rule, rule = ⟨utf8 "m", .equal, .bool true, []⟩ := ⟨_, rfl⟩
  obtain ⟨n, hn⟩ : ∃ rule : Rule, rule = ⟨utf8 "n", .less, .integer 3, []⟩ := ⟨_, rfl⟩
  obtain ⟨document, hdocument⟩ : ∃ document, document = Json.array
      [.object [(utf8 "m", .bool false), (utf8 "n", .null)], .object [(utf8 "n", .integer 5)]] :=
    ⟨_, rfl⟩
  have hfirst : evaluate [m] {} document = .error ⟨.fieldNotFound m, 1⟩ := by
    subst hm hdocument
    rfl
  have hsecond : evaluate [n] {} document = .error ⟨.typeMismatch n .null, 0⟩ := by
    subst hn hdocument
    rfl
  have happend : evaluate ([m] ++ [n]) {} document = .error ⟨.typeMismatch n .null, 0⟩ := by
    refine (evaluate_append_rules [m] [n] {} document).2.2.1 _ hsecond fun other hother => ?_
    rw [hfirst] at hother
    cases hother
    exact Nat.zero_lt_one
  have hsame : SameRules ([m] ++ [n]) [n, m, n] := .of_mem_iff fun rule => by grind
  obtain ⟨other, hother, hplace⟩ :=
    ((evaluate_append_rules _ _ {} document).2.2.2.2 hsame).1 _ happend
  exact ⟨m, n, {}, document, _, _, hfirst, rfl, hsecond, rfl, happend, other, hother, hplace⟩

end FieldRules

import FieldRules.Proofs.Evaluation.Contents
import FieldRules.Proofs.Evaluation.FirstFault
import FieldRules.Proofs.Evaluation.Relevance
import Mathlib.Data.List.Flatten

/-!
# Ignoring more names

An ignored name leaves out the rules on the field of that name, and the elements that set the flag
of that name. Either way an evaluation has less to check, so that ignoring more names leads to
nothing that was not found without them.

* `Options.ignoring`: options with other names to ignore.
* `isSkipped_ignoring_more`, `violates_of_ignoring_more`, `structurallyWrong_of_ignoring_more`: what
  becomes of an element.
* `reportOn_ignoring_more`: what becomes of a report.
* `evaluate_ignoring_more`: what becomes of an evaluation.
-/

namespace FieldRules

variable {rules : List Rule} {options : Options} {element : Json} {document : Json}
  {ignores more : List Bytes}

/-- Options with other names to ignore. -/
def Options.ignoring (options : Options) (ignores : List Bytes) : Options :=
  { options with ignores }

/-! ### Rules -/

theorem not_isIgnored_of_ignoring_more (hmore : ignores ⊆ more) {name : Bytes}
    (h : (options.ignoring more).isIgnored name = false) :
    (options.ignoring ignores).isIgnored name = false := by
  rw [Bool.eq_false_iff, ne_eq, Options.isIgnored_iff] at h ⊢
  exact fun hname => h (hmore hname)

theorem violates_of_ignoring_more (hmore : ignores ⊆ more) {rule : Rule}
    (h : Violates (options.ignoring more) element rule) :
    Violates (options.ignoring ignores) element rule :=
  ⟨not_isIgnored_of_ignoring_more hmore h.1, h.2⟩

theorem inapplicable_of_ignoring_more (hmore : ignores ⊆ more) {rule : Rule}
    (h : Inapplicable (options.ignoring more) element rule) :
    Inapplicable (options.ignoring ignores) element rule :=
  ⟨not_isIgnored_of_ignoring_more hmore h.1, h.2⟩

/-! ### Elements -/

theorem isSkipped_ignoring_more (hmore : ignores ⊆ more)
    (h : isSkipped (options.ignoring ignores) element = true) :
    isSkipped (options.ignoring more) element = true := by
  rw [isSkipped_iff] at h ⊢
  rcases h with hselected | ⟨name, hname, hset⟩
  · exact Or.inl hselected
  · exact Or.inr ⟨name, hmore hname, hset⟩

theorem not_isSkipped_of_ignoring_more (hmore : ignores ⊆ more)
    (h : isSkipped (options.ignoring more) element = false) :
    isSkipped (options.ignoring ignores) element = false := by
  rw [Bool.eq_false_iff] at h ⊢
  exact fun hskipped => h (isSkipped_ignoring_more hmore hskipped)

theorem structurallyWrong_of_ignoring_more (hmore : ignores ⊆ more)
    (h : StructurallyWrong rules (options.ignoring more) element) :
    StructurallyWrong rules (options.ignoring ignores) element := by
  rcases h with hobject | ⟨hskipped, hcount, hlabels⟩ | ⟨hskipped, rule, hrule, hinapplicable⟩
  · exact Or.inl hobject
  · exact Or.inr (Or.inl ⟨not_isSkipped_of_ignoring_more hmore hskipped, hcount, hlabels⟩)
  · exact Or.inr (Or.inr ⟨not_isSkipped_of_ignoring_more hmore hskipped, rule, hrule,
      inapplicable_of_ignoring_more hmore hinapplicable⟩)

/-- The violations of an element are left out or kept, in order. -/
theorem violationsOf_ignoring_more [DoublePrinter] (hmore : ignores ⊆ more) (index : Nat)
    (element : Json) :
    (violationsOf rules (options.ignoring more) index element).Sublist
      (violationsOf rules (options.ignoring ignores) index element) := by
  refine List.Sublist.map _ (List.monotone_filter_right rules fun rule hrule => ?_)
  exact decide_eq_true (violates_of_ignoring_more hmore (of_decide_eq_true hrule))

/-! ### Reports -/

/-- A report with less in it than another: as many elements, no fewer of them skipped, and no
violation that is not in the other, in order. -/
structure Report.Within (report other : Report) : Prop where
  elements : report.elements = other.elements
  skipped : other.skipped ≤ report.skipped
  violations : report.violations.Sublist other.violations

/-- What has passed does not fail if it is reported with less. -/
theorem Report.Within.outcome_of_passed {report other : Report} (h : report.Within other)
    (hpassed : other.outcome = .passed) :
    report.outcome = .passed ∨ report.outcome = .skipped := by
  have hviolations : other.violations = [] :=
    Classical.not_not.1 (other.outcome_eq_passed_iff.1 hpassed).1
  have hnone : report.violations = [] := List.sublist_nil.1 (hviolations ▸ h.violations)
  cases houtcome : report.outcome with
  | passed => exact Or.inl rfl
  | skipped => exact Or.inr rfl
  | failed => exact absurd hnone (report.outcome_eq_failed_iff.1 houtcome)

theorem reportOn_ignoring_more [DoublePrinter] (hmore : ignores ⊆ more) (rules : List Rule)
    (options : Options) (document : Json) :
    (reportOn rules (options.ignoring more) document).Within
      (reportOn rules (options.ignoring ignores) document) where
  elements := by rw [elements_reportOn, elements_reportOn]
  skipped := by
    rw [skipped_reportOn, skipped_reportOn]
    exact List.countP_mono_left fun element _ hskipped => isSkipped_ignoring_more hmore hskipped
  violations := by
    rw [violations_reportOn, violations_reportOn]
    refine List.Sublist.flatMap_right _ fun place _ => ?_
    cases hskipped : isSkipped (options.ignoring more) place.1 with
    | true => exact List.nil_sublist _
    | false =>
      rw [not_isSkipped_of_ignoring_more hmore hskipped]
      exact violationsOf_ignoring_more hmore place.2 place.1

/-- Ignoring more names. Where there is a report there is one with as many elements, no fewer of
them skipped, and some of the violations in order, so that what has passed has passed or is skipped.
Where there is still an error there was one about the same element or an earlier one. -/
theorem evaluate_ignoring_more [DoublePrinter] (rules : List Rule) (options : Options)
    (document : Json) (ignores more : List Bytes) (hmore : ∀ name ∈ ignores, name ∈ more) :
    (∀ report, evaluate rules (options.ignoring ignores) document = .ok report →
      ∃ other, evaluate rules (options.ignoring more) document = .ok other ∧
        other.elements = report.elements ∧ report.skipped ≤ other.skipped ∧
        other.violations.Sublist report.violations ∧
        (report.outcome = .passed → other.outcome = .passed ∨ other.outcome = .skipped)) ∧
    ∀ error, evaluate rules (options.ignoring more) document = .error error →
      ∃ first, evaluate rules (options.ignoring ignores) document = .error first ∧
        first.element ≤ error.element := by
  refine ⟨fun report hreport => ?_, fun error herror => ?_⟩
  · obtain ⟨hwell, rfl⟩ := evaluate_eq_ok_iff.1 hreport
    have hother : evaluate rules (options.ignoring more) document =
        .ok (reportOn rules (options.ignoring more) document) :=
      evaluate_eq_ok fun element helement hwrong =>
        hwell element helement (structurallyWrong_of_ignoring_more hmore hwrong)
    have hwithin := reportOn_ignoring_more hmore rules options document
    exact ⟨_, hother, hwithin.elements, hwithin.skipped, hwithin.violations,
      hwithin.outcome_of_passed⟩
  · exact exists_error_le_of_imp (fun _ _ => structurallyWrong_of_ignoring_more hmore) herror

/-- The name is that of a field, which is violated in the first element, and of a flag, which the
second element sets. -/
theorem evaluate_ignoring_more_of_field_and_flag :
    ∃ rules document report, (∀ name ∈ [], name ∈ [utf8 "m"]) ∧
      evaluate rules (Options.ignoring { missing := .pass } []) document = .ok report ∧
        report.skipped = 0 ∧
      ∃ other, evaluate rules (Options.ignoring { missing := .pass } [utf8 "m"]) document =
        .ok other ∧
        report.skipped ≤ other.skipped ∧ other.violations.Sublist report.violations ∧
          other.skipped = 1 ∧ report.violations.length = 3 ∧ other.violations.length = 1 := by
  obtain ⟨rules, hrules⟩ : ∃ rules : List Rule,
      rules = [⟨utf8 "m", .equal, .bool true, []⟩, ⟨utf8 "n", .less, .integer 3, []⟩] := ⟨_, rfl⟩
  obtain ⟨document, hdocument⟩ : ∃ document, document = Json.array
      [.object [(utf8 "m", .null), (utf8 "n", .integer 5)],
        .object [(utf8 "flags", .object [(utf8 "m", .bool true)]), (utf8 "n", .integer 7)]] :=
    ⟨_, rfl⟩
  have hreport : evaluate rules (Options.ignoring { missing := .pass } []) document =
      .ok ⟨2, 0, [⟨utf8 "m==true", 0, utf8 "null"⟩, ⟨utf8 "n<3", 0, utf8 "5"⟩,
        ⟨utf8 "n<3", 1, utf8 "7"⟩]⟩ := by
    subst hrules hdocument
    rfl
  have hless : evaluate rules (Options.ignoring { missing := .pass } [utf8 "m"]) document =
      .ok ⟨2, 1, [⟨utf8 "n<3", 0, utf8 "5"⟩]⟩ := by
    subst hrules hdocument
    rfl
  have hmore : ∀ name ∈ [], name ∈ [utf8 "m"] := by simp
  obtain ⟨other, hother, -, hskipped, hviolations, -⟩ :=
    (evaluate_ignoring_more rules { missing := .pass } document [] [utf8 "m"] hmore).1 _ hreport
  rw [hless] at hother
  cases hother
  exact ⟨rules, document, _, hmore, hreport, rfl, _, hless, hskipped, hviolations, rfl, rfl, rfl⟩

end FieldRules

import FieldRules.Proofs.Evaluation.Verdict

/-!
# The contents of a report

A report says of every element and every rule what there is to say, once and in order.

* `evidence`: what an element holds against a rule.
* `violationsOf_eq_filterMap`: the violations of an element are the evidence against the rules that
  count.
* `evaluate_contents`: when there is a report, and what it contains.
-/

namespace FieldRules

variable {rules : List Rule} {options : Options} {document : Json}

variable [DoublePrinter]

/-- What an element holds against a rule: the value that the rule is about if it compares as
unsatisfied, or the text for an absent field if that counts as a failure. -/
def evidence (options : Options) (element : Json) (rule : Rule) : Option Bytes :=
  match subject options element rule.field with
  | some value =>
    if compareWith value rule.operator rule.operand options.ignoreCase =
      .unsatisfied then some value.write else none
  | none => if options.missing = .fail then some missingValue else none

/-- There is evidence against a rule exactly if it answers so, and it is what the rule has found. -/
theorem evidence_eq_ite (element : Json) (rule : Rule) :
    evidence options element rule =
      if answer options element rule = .unsatisfied then some (actual options element rule) else
        none := by
  unfold evidence answer actual
  cases subject options element rule.field with
  | some value => rfl
  | none => cases options.missing <;> rfl

/-- The violations of an element are the evidence against the rules that count, in the order of the
rules. -/
theorem violationsOf_eq_filterMap (index : Nat) (element : Json) :
    violationsOf rules options index element =
      (rules.filter fun rule => !options.isIgnored rule.field).filterMap fun rule =>
        (evidence options element rule).map fun actual => ⟨rule.canonical, index, actual⟩ := by
  induction rules with
  | nil => rfl
  | cons rule rules ih =>
    rw [violationsOf] at ih ⊢
    cases hignored : options.isIgnored rule.field with
    | true =>
      have hviolates : ¬ Violates options element rule := by simp [Violates, hignored]
      simp [hviolates, hignored, ih]
    | false =>
      by_cases hanswer : answer options element rule = .unsatisfied
      · have hviolates : Violates options element rule := ⟨hignored, hanswer⟩
        have hevidence : evidence options element rule = some (actual options element rule) := by
          rw [evidence_eq_ite, if_pos hanswer]
        simp [hviolates, hignored, hevidence, ih]
      · have hviolates : ¬ Violates options element rule := fun h => hanswer h.2
        have hevidence : evidence options element rule = none := by
          rw [evidence_eq_ite, if_neg hanswer]
        simp [hviolates, hignored, hevidence, ih]

/-! ### The report on a document -/

/-- A document has the one report on its elements, if none of them is structurally wrong. -/
theorem evaluate_eq_ok_iff {report : Report} :
    evaluate rules options document = .ok report ↔
      (∀ element ∈ document.elements, ¬ StructurallyWrong rules options element) ∧
      report = reportOn rules options document := by
  constructor
  · intro hreport
    have hwell : ∀ element ∈ document.elements, ¬ StructurallyWrong rules options element := by
      intro element helement hwrong
      obtain ⟨error, herror⟩ := exists_error_of_evaluate ⟨element, helement, hwrong⟩
      rw [herror] at hreport
      cases hreport
    rw [evaluate_eq_ok hwell] at hreport
    cases hreport
    exact ⟨hwell, rfl⟩
  · rintro ⟨hwell, rfl⟩
    exact evaluate_eq_ok hwell

theorem reportOn_congr {others : List Rule} {settings : Options}
    (h : ∀ element ∈ document.elements, ∀ index,
      verdictOf rules options index element = verdictOf others settings index element) :
    reportOn rules options document = reportOn others settings document := by
  have hplaces : ∀ place ∈ document.elements.zipIdx, ∀ index,
      verdictOf rules options index place.1 = verdictOf others settings index place.1 :=
        forall_zipIdx.2 h
  unfold reportOn
  rw [List.map_congr_left fun place hplace => hplaces place hplace place.2]

theorem elements_reportOn (rules : List Rule) (options : Options) (document : Json) :
    (reportOn rules options document).elements = document.elements.length := by
  simp [reportOn, Report.ofVerdicts]

theorem skipped_reportOn (rules : List Rule) (options : Options) (document : Json) :
    (reportOn rules options document).skipped = document.elements.countP (isSkipped options) := by
  have hfst : document.elements.zipIdx.map Prod.fst = document.elements := List.zipIdx_map_fst ..
  calc (reportOn rules options document).skipped
      = document.elements.zipIdx.countP fun place => isSkipped options place.1 := by
        simp [reportOn, Report.ofVerdicts, List.countP_map, Function.comp_def, isSkipped_verdictOf]
    _ = (document.elements.zipIdx.map Prod.fst).countP (isSkipped options) := by
        rw [List.countP_map]
        rfl
    _ = document.elements.countP (isSkipped options) := by rw [hfst]

theorem violations_reportOn (rules : List Rule) (options : Options) (document : Json) :
    (reportOn rules options document).violations = document.elements.zipIdx.flatMap fun place =>
      if isSkipped options place.1 then [] else violationsOf rules options place.2 place.1 := by
  have hverdict (place : Json × Nat) : (verdictOf rules options place.2 place.1).violations =
      if isSkipped options place.1 then [] else violationsOf rules options place.2 place.1 := by
    unfold verdictOf
    split <;> rfl
  simp only [reportOn, Report.ofVerdicts, List.flatMap_map, hverdict]

/-- A violation is about an element that is not skipped and a rule that it violates, and tells what
the rule has found. -/
theorem mem_violations_reportOn_iff {violation : Violation} :
    violation ∈ (reportOn rules options document).violations ↔
      ∃ rule ∈ rules, ∃ element, document.elements[violation.element]? = some element ∧
        isSkipped options element = false ∧ Violates options element rule ∧
          violation.rule = rule.canonical ∧
          violation.actual = actual options element rule := by
  rw [violations_reportOn, List.mem_flatMap]
  constructor
  · rintro ⟨⟨element, index⟩, hplace, hmem⟩
    split at hmem
    · cases hmem
    · next hskipped =>
      obtain ⟨rule, hrule, rfl⟩ := List.mem_map.1 hmem
      obtain ⟨hrule, hviolates⟩ := List.mem_filter.1 hrule
      exact ⟨rule, hrule, element, List.mk_mem_zipIdx_iff_getElem?.1 hplace,
        eq_false_of_ne_true hskipped,
        of_decide_eq_true hviolates, rfl, rfl⟩
  · rintro ⟨rule, hrule, element, hplace, hskipped, hviolates, htext, hactual⟩
    refine ⟨(element, violation.element), List.mk_mem_zipIdx_iff_getElem?.2 hplace, ?_⟩
    obtain ⟨text, index, actual⟩ := violation
    cases htext
    cases hactual
    rw [hskipped]
    exact List.mem_map_of_mem (List.mem_filter.2 ⟨hrule, decide_eq_true hviolates⟩)

/-- What a report contains. There is one if no element is structurally wrong. It counts the
elements, one if the document is no array, and those of them that are skipped. Its violations come
of going through the elements in order and, on each that is not skipped, through the rules that
count in order: one for each rule that the element has evidence against. -/
theorem evaluate_contents (rules : List Rule) (options : Options) (document : Json)
    (report : Report) :
    evaluate rules options document = .ok report ↔
      (∀ element ∈ document.elements, ¬ StructurallyWrong rules options element) ∧
      report.elements = (match document with | .array items => items.length | _ => 1) ∧
      report.skipped = document.elements.countP (isSkipped options) ∧
      report.violations = document.elements.zipIdx.flatMap fun (element, index) =>
        if isSkipped options element then []
        else
          (rules.filter fun rule => !options.isIgnored rule.field).filterMap fun rule =>
            (evidence options element rule).map fun actual => ⟨rule.canonical, index, actual⟩ := by
  have hcount : document.elements.length =
      match document with | .array items => items.length | _ => 1 := by
    cases document <;> rfl
  rw [evaluate_eq_ok_iff]
  refine and_congr_right fun _ => ?_
  simp only [← violationsOf_eq_filterMap, ← violations_reportOn rules options, ← hcount,
    ← skipped_reportOn rules options, ← elements_reportOn rules options]
  constructor
  · rintro rfl
    exact ⟨rfl, rfl, rfl⟩
  · rintro ⟨helements, hskipped, hviolations⟩
    obtain ⟨elements, skipped, violations⟩ := report
    cases helements
    cases hskipped
    cases hviolations
    rfl

/-- A rule given twice is reported twice, an ignored one not at all, and a skipped element not
either. -/
example :
    evaluate [⟨utf8 "n", .less, .integer 3, []⟩, ⟨utf8 "m", .equal, .bool true, []⟩,
      ⟨utf8 "n", .less, .integer 3, []⟩]
      { missing := .fail, ignores := [utf8 "m"] }
      (.array [.object [(utf8 "n", .integer 5)],
        .object [(utf8 "flags", .object [(utf8 "m", .bool true)])], .object []]) =
      .ok ⟨3, 1, [⟨utf8 "n<3", 0, utf8 "5"⟩, ⟨utf8 "n<3", 0, utf8 "5"⟩,
        ⟨utf8 "n<3", 2, utf8 "<missing>"⟩, ⟨utf8 "n<3", 2, utf8 "<missing>"⟩]⟩ :=
  rfl

end FieldRules

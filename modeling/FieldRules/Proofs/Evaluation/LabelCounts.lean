import FieldRules.Proofs.Evaluation.FirstFault
import FieldRules.Proofs.Evaluation.Relevance
import Mathlib.Algebra.BigOperators.Group.List.Lemmas
import Mathlib.Algebra.GroupWithZero.Nat

/-!
# Rules on numbers of labels

Where labels are counted, an evaluation is that of the counts: of the object that has, for the field
of each rule, the number of shapes with that label.

* `Json.labelCounts`, `find?_labelCounts`: the object of the counts.
* `Options.uncounted`: the options under which it is evaluated.
* `judge_eq_judge_labelCounts`: an annotation is judged as its counts are.
* `judge_of_perm_shapes`: the order of the shapes does not count.
* `exists_labels_sum_eq`: the counts of all labels add up to the number of shapes.
* `evaluate_labelCounts`: what comes of an element whose labels are counted.
-/

namespace FieldRules

variable {rules : List Rule} {options : Options} {element other : Json} {index : Nat}

/-! ### The object of the counts -/

namespace Json

/-- An object that is built from the values of a function has that value for every key, and no other
members. -/
theorem find?_ofMembers_map (value : Bytes → Json) (keys : List Bytes) (name : Bytes) :
    (ofMembers (keys.map fun key => (key, value key))).find? name =
      if name ∈ keys then some (value name) else none := by
  have hlookup (kept : List (Bytes × Json)) :
      ((keys.map fun key => (key, value key)).foldl (fun object member =>
        insertMember member.1 member.2 object)
        kept).lookup name = if name ∈ keys then some (value name) else kept.lookup name := by
    induction keys generalizing kept with
    | nil => simp
    | cons key keys ih =>
      rw [List.map_cons, List.foldl_cons, ih, lookup_insertMember]
      by_cases hkey : name = key
      · simp [hkey]
      · simp [hkey]
  exact hlookup []

/-- The numbers of shapes of an element that have the field of a rule as their label, by field
name. -/
def labelCounts (rules : List Rule) (element : Json) : Json :=
  ofMembers ((rules.map Rule.field).map fun name => (name, .integer (element.labelCount name)))

theorem find?_labelCounts (rules : List Rule) (element : Json) (name : Bytes) :
    (element.labelCounts rules).find? name =
      if name ∈ rules.map Rule.field then some (.integer (element.labelCount name)) else none :=
  find?_ofMembers_map (fun name => .integer (element.labelCount name)) (rules.map Rule.field) name

end Json

/-- Options under which fields are read instead of labels counted, and no annotation flags are
selected. -/
def Options.uncounted (options : Options) : Options :=
  { options with countLabels := false, selected := [] }

/-- Counts are no flags, so that nothing takes them out of the evaluation. -/
theorem isSkipped_labelCounts (rules : List Rule) (options : Options) (element : Json) :
    isSkipped options.uncounted (element.labelCounts rules) = false := by
  have hflags : annotationFlags? (element.labelCounts rules) = none := by
    rw [annotationFlags?, Json.find?_labelCounts]
    split <;> rfl
  rw [isSkipped, hflags]
  rfl

/-! ### Elements -/

/-- Rules are checked alike with labels counted or not, if they are about the same values. -/
theorem checkRules_uncounted [DoublePrinter] (subject : Bytes → Option Json) (index : Nat)
    (rules : List Rule) :
    checkRules options.uncounted subject index rules = checkRules options subject index rules := by
  induction rules with
  | nil => rfl
  | cons rule rules ih =>
    rw [checkRules, checkRules, ih]
    rfl

theorem subject_of_countLabels (hcount : options.countLabels = true) (element : Json)
    (name : Bytes) :
    subject options element name = some (.integer (element.labelCount name)) := by
  simp [subject, hcount]

/-- An annotation is judged as its counts are. -/
theorem judge_eq_judge_labelCounts [DoublePrinter] (hcount : options.countLabels = true)
    (hchecked : IsChecked options element) (rules : List Rule) (index : Nat) :
    judge rules options index element =
      judge rules options.uncounted index (element.labelCounts rules) := by
  have hcounts : IsChecked options.uncounted (element.labelCounts rules) :=
    ⟨rfl, isSkipped_labelCounts .., nofun⟩
  rw [judge_of_isChecked hchecked, judge_of_isChecked hcounts, checkRules_uncounted]
  congr 1
  refine checkRules_congr (fun rule hrule _ => ?_) index
  rw [subject_of_countLabels hcount]
  show _ = (element.labelCounts rules).find? rule.field
  rw [Json.find?_labelCounts, if_pos (List.mem_map_of_mem hrule)]

/-- The labels of an object that is not skipped are what is wrong with it exactly if it is no
annotation. -/
theorem judge_eq_unlabelled_iff [DoublePrinter] (hcount : options.countLabels = true)
    (hobject : element.isObject = true) (hskipped : isSkipped options element = false) :
    (∃ flaw, judge rules options index element = .error (.unlabelled flaw)) ↔
      ¬ element.IsAnnotation := by
  simp only [judge_eq_error_iff]
  constructor
  · rintro ⟨flaw, hfault⟩
    cases hfault with
    | unlabelled _ _ _ hlabels => exact hlabels
  · exact fun hlabels => ⟨flawOf element, .unlabelled hobject hskipped hcount hlabels⟩

/-- With labels counted, and there to count, the only error is a rule that asks for an order that a
number does not have. -/
theorem HasFault.kind_of_labels_listed {fault : EvaluationFault}
    (h : HasFault rules options element fault) (hcount : options.countLabels = true)
    (hobject : element.isObject = true) (hlabels : element.IsAnnotation) :
    fault.kind = .typeMismatch := by
  cases h with
  | notAnObject hfalse => simp [hobject] at hfalse
  | unlabelled _ _ _ hnot => exact absurd hlabels hnot
  | fieldNotFound _ _ _ habsent _ => simp [subject_of_countLabels hcount] at habsent
  | typeMismatch => rfl

/-! ### The order of the shapes -/

variable {shapes others : List Json}

theorem isAnnotation_iff (hshapes : element.find? shapesKey = some (.array shapes)) :
    element.IsAnnotation ↔
      ∀ shape ∈ shapes, shape.isObject = true ∧ ∃ label,
        shape.find? labelKey = some (.string label) := by
  simp [Json.IsAnnotation, hshapes]

theorem subjects_of_perm_shapes (hcount : options.countLabels = true)
    (hshapes : element.find? shapesKey = some (.array shapes))
    (hothers : other.find? shapesKey = some (.array others)) (hperm : shapes.Perm others) :
    subjects options element = subjects options other := by
  by_cases hlabels : element.IsAnnotation
  · have hlabels' : other.IsAnnotation := by
      simpa only [isAnnotation_iff hshapes, isAnnotation_iff hothers, hperm.mem_iff] using hlabels
    rw [subjects_eq_ok fun _ => hlabels, subjects_eq_ok fun _ => hlabels']
    congr 1
    funext name
    rw [subject_of_countLabels hcount, subject_of_countLabels hcount, Json.labelCount,
      Json.labelCount, hshapes, hothers]
    simp only [hperm.countP_eq]
  · have hlabels' : ¬ other.IsAnnotation := by
      simpa only [isAnnotation_iff hshapes, isAnnotation_iff hothers, hperm.mem_iff] using hlabels
    rw [subjects_eq_error hcount hlabels, subjects_eq_error hcount hlabels', flawOf, flawOf,
      hshapes, hothers]

theorem judge_of_perm_shapes [DoublePrinter] (hcount : options.countLabels = true)
    (hskipped : isSkipped options element = isSkipped options other)
    (hshapes : element.find? shapesKey = some (.array shapes))
    (hothers : other.find? shapesKey = some (.array others)) (hperm : shapes.Perm others) :
    judge rules options index element = judge rules options index other := by
  unfold judge
  simp only [Json.isObject_of_find? hshapes, Json.isObject_of_find? hothers, hskipped,
    subjects_of_perm_shapes hcount hshapes hothers hperm, Bool.not_true,
    Bool.false_eq_true, if_false]

/-- The counts of all labels that occur add up to the number of shapes. -/
theorem exists_labels_sum_eq (hlabels : element.IsAnnotation)
    (hshapes : element.find? shapesKey = some (.array shapes)) :
    ∃ labels : List Bytes, labels.Nodup ∧ (∀ name, name ∈ labels ↔ 0 < element.labelCount name) ∧
      (labels.map element.labelCount).sum = shapes.length := by
  obtain ⟨labels, -, hlength, hcounts⟩ := exists_labels fun shape hshape =>
    ((isAnnotation_iff hshapes).1 hlabels shape hshape).2
  have hcount (name : Bytes) : labels.count name = element.labelCount name := by
    rw [hcounts, Json.labelCount, hshapes]
  refine ⟨labels.dedup, List.nodup_dedup labels, fun name => ?_, ?_⟩
  · rw [List.mem_dedup, ← hcount, List.count_pos_iff]
  · rw [← hlength, ← List.sum_map_count_dedup_eq_length]
    refine congrArg List.sum (List.map_congr_left fun name _ => ?_)
    rw [← hcount]
    congr
    exact lawful_beq_subsingleton ..

/-! ### Documents -/

theorem Json.elements_of_isObject (h : element.isObject = true) : element.elements = [element] := by
  refine elements_of_not_array ?_
  rintro items rfl
  cases h

theorem evaluate_eq_of_judge_eq [DoublePrinter] {rules' : List Rule} {options' : Options}
    (helement : element.isObject = true) (hother : other.isObject = true)
    (h : judge rules options 0 element = judge rules' options' 0 other) :
    evaluate rules options element = evaluate rules' options' other := by
  rw [evaluate, evaluate, Json.elements_of_isObject helement, Json.elements_of_isObject hother,
    judgeFrom, judgeFrom, h]
  rfl

theorem evaluate_eq_error_iff_judge [DoublePrinter] {error : EvaluationError}
    (h : element.isObject = true) :
    evaluate rules options element = .error error ↔
      error.element = 0 ∧ judge rules options 0 element = .error error.fault := by
  rw [evaluate, map_eq_error_iff, Json.elements_of_isObject h]
  obtain ⟨fault, place⟩ := error
  cases hjudge : judge rules options 0 element with
  | error found =>
    rw [judgeFrom_cons_of_error hjudge]
    simp [eq_comm, and_comm]
  | ok verdict =>
    rw [judgeFrom_cons_of_ok hjudge]
    simp [Except.map]

/-- Labels are counted, and rules are on the counts. For an object that is not skipped the error is
that its labels cannot be counted exactly if it has no array of shapes, or a shape that is no object
with a string as its label, whatever the rules. Otherwise it is evaluated, and judged at any place
of an array, as the object that has the number of shapes with that label for the field of each rule,
with labels not counted and no flags selected: with the same report or the same error, which is then
a rule that asks for an order that a number does not have. The counts of all labels that occur add
up to the number of shapes. The order of the shapes makes no difference. -/
theorem evaluate_labelCounts [DoublePrinter] (rules : List Rule)
    (hcount : options.countLabels = true) (hobject : element.isObject = true)
    (hskipped : isSkipped options element = false) :
    ((∃ error, evaluate rules options element = .error error ∧ error.fault.kind = .unlabelled) ↔
      ¬ ∃ shapes, element.find? shapesKey = some (.array shapes) ∧
        ∀ shape ∈ shapes, shape.isObject = true ∧ ∃ label,
          shape.find? labelKey = some (.string label)) ∧
    (∀ shapes, element.find? shapesKey = some (.array shapes) →
      (∀ shape ∈ shapes, shape.isObject = true ∧ ∃ label,
        shape.find? labelKey = some (.string label)) →
      evaluate rules options element =
        evaluate rules options.uncounted (element.labelCounts rules) ∧
      (∀ index, judge rules options index element =
        judge rules options.uncounted index (element.labelCounts rules)) ∧
      (∀ error, evaluate rules options element = .error error → error.fault.kind = .typeMismatch) ∧
      ∃ labels : List Bytes, labels.Nodup ∧ (∀ name, name ∈ labels ↔ 0 < element.labelCount name) ∧
        (labels.map element.labelCount).sum = shapes.length) ∧
    ∀ other shapes others, isSkipped options other = false →
      element.find? shapesKey = some (.array shapes) →
      other.find? shapesKey = some (.array others) → shapes.Perm others →
      evaluate rules options other = evaluate rules options element := by
  refine ⟨?_, fun shapes hshapes hlabelled => ?_,
    fun other shapes others hskipped' hshapes hothers hperm => ?_⟩
  · refine .trans ?_ (@judge_eq_unlabelled_iff rules _ _ 0 _ hcount hobject hskipped)
    simp only [evaluate_eq_error_iff_judge hobject]
    constructor
    · rintro ⟨⟨fault, place⟩, ⟨-, hjudge⟩, hkind⟩
      cases fault with
      | unlabelled flaw => exact ⟨flaw, hjudge⟩
      | _ => cases hkind
    · rintro ⟨flaw, hjudge⟩
      exact ⟨⟨.unlabelled flaw, 0⟩, ⟨rfl, hjudge⟩, rfl⟩
  · have hlabels : element.IsAnnotation := (isAnnotation_iff hshapes).2 hlabelled
    have hjudge := judge_eq_judge_labelCounts hcount ⟨hobject, hskipped, fun _ => hlabels⟩ rules
    refine ⟨evaluate_eq_of_judge_eq hobject rfl (hjudge 0), hjudge, fun error herror => ?_,
      exists_labels_sum_eq hlabels hshapes⟩
    obtain ⟨-, hfault⟩ := (evaluate_eq_error_iff_judge hobject).1 herror
    exact (judge_eq_error_iff.1 hfault).kind_of_labels_listed hcount hobject hlabels
  · exact (evaluate_eq_of_judge_eq hobject (Json.isObject_of_find? hothers)
      (judge_of_perm_shapes hcount (hskipped.trans hskipped'.symm) hshapes hothers hperm)).symm

/-- Labels that differ in case only are told apart although strings are not, a label may be the name
of the flags, and one that no shape has counts as zero and not as absent. -/
theorem evaluate_labelCounts_of_annotation :
    ∃ (rules : List Rule) (options : Options) (element : Json) (report : Report),
      options.countLabels = true ∧ options.selected ≠ [] ∧ element.isObject = true ∧
        isSkipped options element = false ∧
      element.labelCounts rules =
        .object [(utf8 "TL", .integer 2), (utf8 "flags", .integer 1), (utf8 "x", .integer 0)] ∧
      evaluate rules options element = .ok report ∧
      evaluate rules options.uncounted (element.labelCounts rules) = .ok report ∧
      report.violations = [⟨utf8 "TL<2", 0, utf8 "2"⟩, ⟨utf8 "x>0", 0, utf8 "0"⟩] := by
  obtain ⟨options, hoptions⟩ : ∃ options : Options,
      options = { missing := .fail, ignoreCase := true, countLabels := true, selected :=
        [utf8 "ok"] } := ⟨_, rfl⟩
  obtain ⟨rules, hrules⟩ : ∃ rules : List Rule, rules = [⟨utf8 "TL", .less, .integer 2, []⟩,
      ⟨utf8 "flags", .equal, .integer 1, []⟩, ⟨utf8 "x", .greater, .integer 0, []⟩] := ⟨_, rfl⟩
  obtain ⟨shapes, hshapes⟩ : ∃ shapes, shapes = [Json.object [(utf8 "label", .string (utf8 "TL"))],
      .object [(utf8 "label", .string (utf8 "tl"))],
      .object [(utf8 "label", .string (utf8 "flags"))],
      .object [(utf8 "label", .string (utf8 "TL"))]] := ⟨_, rfl⟩
  obtain ⟨element, helement⟩ : ∃ element,
      element = Json.object [(utf8 "flags", .object [(utf8 "ok", .bool true)]),
        (utf8 "shapes", .array shapes)] := ⟨_, rfl⟩
  have hcount : options.countLabels = true := by rw [hoptions]
  have hobject : element.isObject = true := by rw [helement]; rfl
  have hskipped : isSkipped options element = false := by rw [hoptions, helement]; rfl
  have hreport : evaluate rules options element =
      .ok ⟨1, 0, [⟨utf8 "TL<2", 0, utf8 "2"⟩, ⟨utf8 "x>0", 0, utf8 "0"⟩]⟩ := by
    subst helement hshapes hrules hoptions
    rfl
  have hlabelled : ∀ shape ∈ shapes, shape.isObject = true ∧ ∃ label,
      shape.find? labelKey = some (.string label) := by
    rw [hshapes]
    simpa using ⟨⟨rfl, _, rfl⟩, ⟨rfl, _, rfl⟩, ⟨rfl, _, rfl⟩, ⟨rfl, _, rfl⟩⟩
  have hfound : element.find? shapesKey = some (.array shapes) := by rw [helement]; rfl
  obtain ⟨hcounts, -⟩ :=
    (evaluate_labelCounts rules hcount hobject hskipped).2.1 shapes hfound hlabelled
  refine ⟨rules, options, element, _,
    hcount, by rw [hoptions]; simp, hobject, hskipped, ?_, hreport,
    hcounts ▸ hreport, rfl⟩
  subst helement hshapes hrules
  rfl

end FieldRules

import FieldRules.Proofs.Evaluation.Judgement
import Mathlib.Data.List.Forall2

/-!
# What an evaluation reads

An evaluation reads of an element the members that rules name, or the labels of its shapes, and
those of its flags that are selected or ignored. Whatever else is in it does not count.

* `Json.setsFlag`, `Json.setsFlag_iff`: the flags that an element sets.
* `isSkipped_iff`: skipping is a matter of the flags that are set.
* `Alike`: two elements that agree on all that is read of them.
* `judge_of_alike`: alike elements are judged alike.
* `evaluate_of_alike`: documents of alike elements are evaluated alike.
-/

namespace FieldRules

variable {rules : List Rule} {options : Options} {element other : Json}

/-! ### Flags -/

/-- Tells whether an element has an object of flags in which the given one is true. -/
def Json.setsFlag (element : Json) (name : Bytes) : Bool :=
  (annotationFlags? element).any fun flags => flagIsSet flags name

theorem Json.setsFlag_iff {name : Bytes} :
    element.setsFlag name = true ↔
      ∃ flags, element.find? flagsKey = some flags ∧ flags.isObject = true ∧
        flags.find? name = some (.bool true) := by
  have hset (flags : Json) : flagIsSet flags name = true ↔
      flags.find? name = some (.bool true) := by
    unfold flagIsSet
    split
    · next h => simp [h]
    · next h => simpa using h
  unfold setsFlag annotationFlags?
  cases element.find? flagsKey with
  | none => simp
  | some flags => cases hobject : flags.isObject <;> simp [Option.filter, hobject, hset]

/-- Skipping goes by the flags that are set: none of the selected ones, if there are any, or one of
the ignored ones. -/
theorem isSkipped_iff :
    isSkipped options element = true ↔
      (options.selected ≠ [] ∧ ∀ name ∈ options.selected, element.setsFlag name = false) ∨
        ∃ name ∈ options.ignores, element.setsFlag name = true := by
  unfold isSkipped Json.setsFlag
  cases annotationFlags? element with
  | none => simp
  | some flags => simp

theorem isSkipped_congr (h : ∀ name, name ∈ options.selected ∨ name ∈ options.ignores →
    element.setsFlag name = other.setsFlag name) :
    isSkipped options element = isSkipped options other := by
  rw [Bool.eq_iff_iff, isSkipped_iff, isSkipped_iff]
  have hselected : (∀ name ∈ options.selected, element.setsFlag name = false) ↔
      ∀ name ∈ options.selected, other.setsFlag name = false :=
    forall₂_congr fun name hname => by rw [h name (Or.inl hname)]
  have hignored : (∃ name ∈ options.ignores, element.setsFlag name = true) ↔
      ∃ name ∈ options.ignores, other.setsFlag name = true :=
    exists_congr fun name => and_congr_right fun hname => by rw [h name (Or.inr hname)]
  rw [hselected, hignored]

/-! ### Elements -/

/-- Rules are checked alike against values that are the same for the fields of all rules that
count. -/
theorem checkRules_congr [DoublePrinter] {first second : Bytes → Option Json}
    (h : ∀ rule ∈ rules, options.isIgnored rule.field = false →
      first rule.field = second rule.field)
    (index : Nat) :
    checkRules options first index rules = checkRules options second index rules := by
  induction rules with
  | nil => rfl
  | cons rule rules ih =>
    obtain ⟨hrule, hrules⟩ := List.forall_mem_cons.1 h
    rw [checkRules, checkRules, ih hrules]
    cases hignored : options.isIgnored rule.field with
    | true => rfl
    | false => rw [hrule hignored]

/-- Two objects that agree on all that an evaluation reads of them.
* The members that rules name, unless the rule is ignored, are the same, or absent from both.
* The flags are the same, or at least those that are selected or ignored are set in both or in none.
* If labels are counted, the shapes are the same, or at least all are labelled and every label is
  there as often. -/
structure Alike (rules : List Rule) (options : Options) (element other : Json) : Prop where
  isObject : element.isObject = true ∧ other.isObject = true
  members : options.countLabels = false → ∀ rule ∈ rules, options.isIgnored rule.field = false →
    element.find? rule.field = other.find? rule.field
  flags : element.find? flagsKey = other.find? flagsKey ∨
    ∀ name, name ∈ options.selected ∨ name ∈ options.ignores →
      element.setsFlag name = other.setsFlag name
  shapes : options.countLabels = true → element.find? shapesKey = other.find? shapesKey ∨
    element.IsAnnotation ∧ other.IsAnnotation ∧ ∀ label,
      element.labelCount label = other.labelCount label

namespace Alike

theorem isSkipped_eq (h : Alike rules options element other) :
    isSkipped options element = isSkipped options other := by
  rcases h.flags with hflags | hflags
  · unfold isSkipped annotationFlags?
    rw [hflags]
  · exact isSkipped_congr hflags

/-- Labels are counted alike, or cannot be counted for the same reason. -/
theorem subjects_eq (h : Alike rules options element other) (hcount : options.countLabels = true) :
    subjects options element = subjects options other := by
  rcases h.shapes hcount with hshapes | ⟨helement, hother, hlabels⟩
  · have hlabels : shapeLabels element = shapeLabels other := by
      unfold shapeLabels
      rw [hshapes]
    simp only [subjects, hcount, hlabels, if_true]
  · rw [subjects_eq_ok fun _ => helement, subjects_eq_ok fun _ => hother]
    congr 1
    funext name
    simp [subject, hcount, hlabels]

end Alike

/-- Alike elements are judged alike. -/
theorem judge_of_alike [DoublePrinter] (h : Alike rules options element other) (index : Nat) :
    judge rules options index element = judge rules options index other := by
  unfold judge
  simp only [h.isObject.1, h.isObject.2, h.isSkipped_eq, Bool.not_true,
    Bool.false_eq_true, if_false]
  cases hcount : options.countLabels with
  | true => rw [h.subjects_eq hcount]
  | false =>
    have hsubjects (value : Json) : subjects options value = .ok fun name => value.find? name := by
      simp [subjects, hcount]
    have hrules : checkRules options (fun name => element.find? name) index rules =
        checkRules options (fun name => other.find? name) index rules :=
      checkRules_congr (h.members hcount) index
    simp only [hsubjects, bind, Except.bind, hrules]

/-! ### Documents -/

theorem judgeFrom_of_alike [DoublePrinter] {elements others : List Json}
    (h : List.Forall₂ (Alike rules options) elements others) (index : Nat) :
    judgeFrom rules options index elements = judgeFrom rules options index others := by
  induction h generalizing index with
  | nil => rfl
  | cons hfirst _ ih => rw [judgeFrom, judgeFrom, judge_of_alike hfirst, ih]

/-- Two documents, single objects or arrays of as many objects, have the same report or the same
error if their elements agree one by one on all that is read of them. -/
theorem evaluate_of_alike [DoublePrinter] (rules : List Rule) (options : Options)
    (first second : Json) (h : List.Forall₂ (Alike rules options) first.elements second.elements) :
    evaluate rules options first = evaluate rules options second := by
  unfold evaluate
  rw [judgeFrom_of_alike h]

/-- Two elements that differ in an ignored member, in a flag that is not asked for and in one that
is no boolean. -/
theorem evaluate_of_alike_but_ignored :
    ∃ rules options first second, first ≠ second ∧
      evaluate rules options first = evaluate rules options second ∧
      ∃ report, evaluate rules options first = .ok report ∧ report.violations ≠ [] := by
  obtain ⟨rules, hrules⟩ : ∃ rules : List Rule,
      rules = [⟨utf8 "n", .less, .integer 3, []⟩, ⟨utf8 "m", .equal, .bool true, []⟩] := ⟨_, rfl⟩
  obtain ⟨options, hoptions⟩ : ∃ options : Options, options = { ignores := [utf8 "m"] } := ⟨_, rfl⟩
  obtain ⟨first, hfirst⟩ : ∃ first, first = Json.object
      [(utf8 "flags", .object [(utf8 "m", .bool false)]), (utf8 "m", .null),
        (utf8 "n", .integer 5)] := ⟨_, rfl⟩
  obtain ⟨second, hsecond⟩ : ∃ second, second = Json.object
      [(utf8 "flags", .object [(utf8 "draft", .bool true), (utf8 "m", .integer 1)]),
        (utf8 "n", .integer 5)] := ⟨_, rfl⟩
  have hflags : ∀ name, name ∈ options.selected ∨ name ∈ options.ignores →
      first.setsFlag name = second.setsFlag name := by
    subst hoptions hfirst hsecond
    intro name hname
    obtain rfl : name = utf8 "m" := by simpa using hname
    rfl
  have hmembers : ∀ rule ∈ rules, options.isIgnored rule.field = false →
      first.find? rule.field = second.find? rule.field := by
    subst hrules hoptions hfirst hsecond
    decide
  have halike : Alike rules options first second := by
    refine ⟨?_, fun _ => hmembers, Or.inr hflags, ?_⟩
    · subst hfirst hsecond
      exact ⟨rfl, rfl⟩
    · subst hoptions
      simp
  have hreport : evaluate rules options first = .ok ⟨1, 0, [⟨utf8 "n<3", 0, utf8 "5"⟩]⟩ := by
    subst hrules hoptions hfirst
    rfl
  have hne : first ≠ second := by
    subst hfirst hsecond
    decide
  refine ⟨rules, options, first, second, hne, evaluate_of_alike rules options first second ?_, _,
    hreport, by simp⟩
  subst hfirst hsecond
  exact .cons halike .nil

end FieldRules

import FieldRules.Evaluation.Labels

/-!
# Counting labels

* `Json.IsAnnotation`: an element whose shapes all are objects with a label.
* `Json.labelCount`: the number of shapes with a given label.
* `shapeLabels_of_isAnnotation`, `shapeLabels_of_not_isAnnotation`: the labels are found exactly in
  annotations, each as often as it is there.
* `flawOf`: why they are not found in any other element.
-/

namespace FieldRules

namespace Json

/-- Holds of an element that has an array of shapes, each an object with a string as its label. -/
def IsAnnotation (element : Json) : Prop :=
  ∃ shapes, element.find? shapesKey = some (.array shapes) ∧
    ∀ shape ∈ shapes, shape.isObject = true ∧ ∃ label, shape.find? labelKey = some (.string label)

/-- The number of shapes of an element that have the given label. -/
def labelCount (element : Json) (name : Bytes) : Nat :=
  match element.find? shapesKey with
  | some (.array shapes) => shapes.countP fun shape => shape.find? labelKey = some (.string name)
  | _ => 0

theorem isObject_of_find? {value found : Json} {key : Bytes} (h : value.find? key = some found) :
    value.isObject = true := by
  cases value with
  | object members => rfl
  | _ => cases h

end Json

theorem shapeLabel?_eq_some_iff {shape : Json} {label : Bytes} :
    shapeLabel? shape = some label ↔ shape.find? labelKey = some (.string label) := by
  unfold shapeLabel?
  split
  · next found hfound => simp [hfound]
  · next hother =>
    constructor
    · rintro ⟨⟩
    · intro h
      exact absurd h (hother label)

/-- Labels are counted as the shapes that have them. -/
theorem exists_labels {shapes : List Json}
    (h : ∀ shape ∈ shapes, ∃ label, shape.find? labelKey = some (.string label)) :
    ∃ labels, shapes.mapM shapeLabel? = some labels ∧ labels.length = shapes.length ∧
      ∀ name, labels.count name = shapes.countP fun shape => shape.find? labelKey =
        some (.string name) := by
  induction shapes with
  | nil => exact ⟨[], rfl, rfl, fun _ => rfl⟩
  | cons shape shapes ih =>
    obtain ⟨labels, hlabels, hlength, hcount⟩ :=
      ih fun other hother => h other (List.mem_cons_of_mem _ hother)
    obtain ⟨label, hlabel⟩ := h shape (List.mem_cons_self ..)
    refine ⟨label :: labels, ?_, by rw [List.length_cons, List.length_cons, hlength], ?_⟩
    · rw [List.mapM_cons, shapeLabel?_eq_some_iff.2 hlabel, hlabels]
      rfl
    · intro name
      simp [List.count_cons, List.countP_cons, hcount, hlabel]

theorem forall_of_mapM_shapeLabel {shapes : List Json} {labels : List Bytes}
    (h : shapes.mapM shapeLabel? = some labels) :
    ∀ shape ∈ shapes, ∃ label, shape.find? labelKey = some (.string label) := by
  induction shapes generalizing labels with
  | nil =>
    intro shape hshape
    cases hshape
  | cons first shapes ih =>
    rw [List.mapM_cons] at h
    obtain ⟨label, hlabel, hrest⟩ := Option.bind_eq_some_iff.1 h
    obtain ⟨others, hothers, -⟩ := Option.bind_eq_some_iff.1 hrest
    intro shape hshape
    rcases List.mem_cons.1 hshape with rfl | hmem
    · exact ⟨label, shapeLabel?_eq_some_iff.1 hlabel⟩
    · exact ih hothers shape hmem

/-- The labels of an annotation are found, each as often as shapes have it. -/
theorem shapeLabels_of_isAnnotation {element : Json} (h : element.IsAnnotation) :
    ∃ labels, shapeLabels element = .ok labels ∧ ∀ name,
      labels.count name = element.labelCount name := by
  obtain ⟨shapes, hshapes, hlabelled⟩ := h
  obtain ⟨labels, hlabels, -, hcount⟩ :=
    exists_labels fun shape hshape => (hlabelled shape hshape).2
  refine ⟨labels, ?_, ?_⟩
  · simp only [shapeLabels, hshapes, hlabels]
  · intro name
    rw [hcount, Json.labelCount, hshapes]

/-- Why the labels of an element that is no annotation cannot be counted. -/
def flawOf (element : Json) : AnnotationFlaw :=
  match element.find? shapesKey with
  | some (.array _) => .unlabelledShape
  | _ => .noShapes

theorem shapeLabels_of_not_isAnnotation {element : Json} (h : ¬ element.IsAnnotation) :
    shapeLabels element = .error (flawOf element) := by
  cases hfound : element.find? shapesKey with
  | none => simp [shapeLabels, flawOf, hfound]
  | some found =>
    cases found with
    | array shapes =>
      cases hlabels : shapes.mapM shapeLabel? with
      | none => simp [shapeLabels, flawOf, hfound, hlabels]
      | some labels =>
        refine absurd ⟨shapes, hfound, ?_⟩ h
        intro shape hshape
        obtain ⟨label, hlabel⟩ := forall_of_mapM_shapeLabel hlabels shape hshape
        exact ⟨Json.isObject_of_find? hlabel, label, hlabel⟩
    | _ => simp [shapeLabels, flawOf, hfound]

end FieldRules

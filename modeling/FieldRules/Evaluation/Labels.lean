import FieldRules.Evaluation.Error

/-!
# Labels of an annotation

An annotation has an array `shapes` of objects, each with a string `label`.

* `shapeLabels` gives the labels of all shapes, or tells what is wrong with them.
-/

namespace FieldRules

/-- The member that holds the shapes of an annotation. -/
def shapesKey : Bytes := utf8 "shapes"

/-- The member that holds the label of a shape. -/
def labelKey : Bytes := utf8 "label"

/-- The label of a shape. -/
def shapeLabel? (shape : Json) : Option Bytes :=
  match shape.find? labelKey with
  | some (.string label) => some label
  | _ => none

/-- The labels of the shapes of an element, in the order of the shapes. -/
def shapeLabels (element : Json) : Except AnnotationFlaw (List Bytes) :=
  match element.find? shapesKey with
  | some (.array shapes) =>
    match shapes.mapM shapeLabel? with
    | some labels => .ok labels
    | none => .error .unlabelledShape
  | _ => .error .noShapes

end FieldRules

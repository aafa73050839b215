import FieldRules.Rule.Basic

/-!
# Errors of an evaluation

* `EvaluationFault` is the reason why an element of a document cannot be judged.
* `EvaluationError` joins a fault with the place of the element.
* `EvaluationError.describe` is the message.
-/

namespace FieldRules

/-- Why the labels of an element cannot be counted. -/
inductive AnnotationFlaw
  | noShapes
  | unlabelledShape
  deriving DecidableEq, Repr

/-- The wording of a flaw. -/
def AnnotationFlaw.text : AnnotationFlaw → Bytes
  | .noShapes => utf8 "no \"shapes\" array"
  | .unlabelledShape => utf8 "shape without a \"label\" string"

/-- Why an element cannot be judged. -/
inductive EvaluationFault
  | fieldNotFound (rule : Rule)
  | typeMismatch (rule : Rule) (found : Json.Kind)
  | notAnObject (found : Json.Kind)
  | unlabelled (flaw : AnnotationFlaw)
  deriving DecidableEq

/-- The classes of faults. -/
inductive EvaluationErrorKind
  | fieldNotFound
  | typeMismatch
  | notAnObject
  | unlabelled
  deriving DecidableEq, Repr

namespace EvaluationFault

/-- The class of a fault. -/
def kind : EvaluationFault → EvaluationErrorKind
  | .fieldNotFound _ => .fieldNotFound
  | .typeMismatch _ _ => .typeMismatch
  | .notAnObject _ => .notAnObject
  | .unlabelled _ => .unlabelled

/-- The rule that cannot be applied, if it is the fault of one. -/
def rule? : EvaluationFault → Option Rule
  | .fieldNotFound rule => some rule
  | .typeMismatch rule _ => some rule
  | _ => none

/-- The canonical text of the rule at fault; empty if there is none. -/
def ruleText (fault : EvaluationFault) : Bytes :=
  fault.rule?.elim [] Rule.canonical

/-- The field of the rule at fault; empty if there is none. -/
def field (fault : EvaluationFault) : Bytes :=
  fault.rule?.elim [] Rule.field

/-- What was found instead; empty for an absent field. -/
def detail : EvaluationFault → Bytes
  | .fieldNotFound _ => []
  | .typeMismatch rule found =>
    utf8 "cannot order " ++ found.name ++ utf8 " \"" ++ rule.field ++ utf8 "\" against " ++
      rule.operand.typeName ++
      utf8 " " ++ rule.operand.text
  | .notAnObject found => found.name
  | .unlabelled flaw => flaw.text

end EvaluationFault

/-- An element that cannot be judged. -/
structure EvaluationError where
  fault : EvaluationFault
  /-- The place of the element, counted from zero. -/
  element : Nat
  deriving DecidableEq

/-- The message on an element that cannot be judged. -/
def EvaluationErrorKind.message (rule field : Bytes) (element : Nat) (detail : Bytes) :
    EvaluationErrorKind → Bytes
  | .fieldNotFound =>
    utf8 "Rule \"" ++ rule ++ utf8 "\" is not applicable to element " ++ Numeral.ofNat element ++
      utf8 ": field \"" ++
      field ++ utf8 "\" not found"
  | .typeMismatch =>
    utf8 "Rule \"" ++ rule ++ utf8 "\" is not applicable to element " ++ Numeral.ofNat element ++
      utf8 ": " ++ detail
  | .notAnObject => utf8 "Element " ++ Numeral.ofNat element ++
      utf8 " is not an object but " ++ detail
  | .unlabelled => utf8 "Element " ++ Numeral.ofNat element ++
      utf8 " is not an annotation: " ++ detail

/-- The message on an error whose class has no name. -/
def EvaluationErrorKind.unknownMessage : Bytes := utf8 "Unknown evaluation error"

/-- The message of an error. -/
def EvaluationError.describe (error : EvaluationError) : Bytes :=
  error.fault.kind.message error.fault.ruleText error.fault.field error.element error.fault.detail

end FieldRules

import FieldRules.Evaluation.Basic
import FieldRules.FileSystem.Reading
import FieldRules.Log
import FieldRules.Options.Flag
import FieldRules.Rule.Parser

/-!
# Validators

* `Validator` is a list of rules with options, `Validator.ofTexts` builds one.
* `Validator.evaluate` gives the report on a document, `Validator.validate` tells whether it passes.
* The same two are there for texts and for files; `Failure` joins the errors of reading and of
  evaluating.

What is logged is part of the result.
-/

namespace FieldRules

/-- Why there is no report. -/
inductive Failure
  | read (failure : ReadFailure)
  | evaluation (error : EvaluationError)
  deriving DecidableEq

/-- The message of a failure. -/
def Failure.describe : Failure → Bytes
  | .read failure => failure.describe
  | .evaluation error => error.describe

/-- Rules with the options to evaluate them under. -/
structure Validator where
  rules : List Rule
  options : Options
  deriving DecidableEq

namespace Validator

/-! ### Construction -/

/-- The validator of rules, flags and names to ignore. Rules are read first, so that a refused rule
is reported before a refused flag. -/
def ofTexts (rules flags ignores : List Bytes) : Except ParseError Validator := do
  let parsed ← Rule.parseAll rules
  let options ← Options.ofFlags flags
  return ⟨parsed, { options with ignores }⟩

/-- The log message on a construction. -/
def constructionMessage (rules flags ignores : List Bytes) : Bytes :=
  match ofTexts rules flags ignores with
  | .error error => error.describe
  | .ok _ =>
    utf8 "Parsed " ++ Numeral.ofNat rules.length ++ utf8 " rules, " ++
      Numeral.ofNat flags.length ++ utf8 " flags, " ++
      Numeral.ofNat ignores.length ++ utf8 " ignores"

/-- Builds a validator and logs it. -/
def create (rules flags ignores : List Bytes) : Logged (Except ParseError Validator) := do
  Logged.log .debug (constructionMessage rules flags ignores)
  return ofTexts rules flags ignores

@[simp] theorem value_create (rules flags ignores : List Bytes) :
    (create rules flags ignores).value = ofTexts rules flags ignores := rfl

/-! ### Documents -/

variable [DoublePrinter]

/-- Evaluates a document and logs the elements that are skipped. -/
def evaluate (validator : Validator) (document : Json) :
    Logged (Except EvaluationError Report) where
  value := FieldRules.evaluate validator.rules validator.options document
  entries := (skippedElements validator.rules validator.options document).map fun index =>
    ⟨.debug, utf8 "Skipping element " ++ Numeral.ofNat index⟩

/-- Tells whether a document passes. -/
def validate (validator : Validator) (document : Json) : Logged (Except EvaluationError Bool) :=
  (·.map Report.passed) <$> validator.evaluate document

/-- Evaluates a document that may not have been read. -/
def evaluateRead (validator : Validator) (document : Except ReadFailure Json) :
    Logged (Except Failure Report) :=
  match document with
  | .error failure => pure (.error (.read failure))
  | .ok document => (·.mapError .evaluation) <$> validator.evaluate document

/-- Evaluates the document in a text. -/
def evaluateText (validator : Validator) (text : Bytes) : Logged (Except Failure Report) :=
  validator.evaluateRead (parseDocument stringSource text)

/-- Tells whether the document in a text passes. -/
def validateText (validator : Validator) (text : Bytes) : Logged (Except Failure Bool) :=
  (·.map Report.passed) <$> validator.evaluateText text

/-- Evaluates the document in a file. -/
def evaluateFile (validator : Validator) (fs : FileSystem) (path : Bytes) :
    Logged (Except Failure Report) :=
  validator.evaluateRead (fs.readDocument path)

/-- Tells whether the document in a file passes. -/
def validateFile (validator : Validator) (fs : FileSystem) (path : Bytes) :
    Logged (Except Failure Bool) :=
  (·.map Report.passed) <$> validator.evaluateFile fs path

/-! ### Text -/

/-- Byte strings as a list: each between apostrophes, all between brackets. -/
def listText (items : List Bytes) : Bytes :=
  utf8 "[" ++ Bytes.joinWith (utf8 ", ") (items.map fun item => utf8 "'" ++ item ++ utf8 "'") ++
    utf8 "]"

/-- A validator as text: its rules and flags as they were written, and the names it ignores. -/
def text (validator : Validator) : Bytes :=
  utf8 "Validator(" ++ listText (validator.rules.map Rule.expression) ++ utf8 ", " ++
    listText validator.options.tokens ++ utf8 ", " ++ listText validator.options.ignores ++ utf8 ")"

end Validator

end FieldRules

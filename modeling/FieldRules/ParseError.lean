import FieldRules.Rule.Operator
import FieldRules.Text.Numeral

/-!
# Errors in rules and flags

* `RuleFault` and `FlagFault` are the reasons why a rule or a flag is refused.
* `ParseError` joins a fault with the text at fault and its place in the list.
* `ParseError.describe` is the message.
-/

namespace FieldRules

/-! ### Flag tokens -/

/-- The flag under which a rule on an absent field passes. -/
def missingAsPassToken : Bytes := utf8 "missing-as-pass"

/-- The flag under which a rule on an absent field fails. -/
def missingAsFailToken : Bytes := utf8 "missing-as-fail"

/-! ### Faults -/

/-- Why a text is no rule. -/
inductive RuleFault
  | emptyExpression
  | missingOperator
  | unexpectedByte (byte : UInt8) (position : Nat)
  | missingField
  | unknownOperator (run : Bytes)
  | missingOperand (operator : Operator)
  | separatedOperator (operator : Operator) (byte : UInt8)
  deriving DecidableEq, Repr

/-- Why a flag is refused. A flag for absent fields is in conflict with the other one. -/
inductive FlagFault
  | unknownFlag
  | nothingSelected
  | conflict (other : Bytes)
  deriving DecidableEq, Repr

/-- Why a rule or a flag is refused. -/
inductive ParseFault
  | rule (fault : RuleFault)
  | flag (fault : FlagFault)
  deriving DecidableEq, Repr

/-- The classes of faults. -/
inductive ParseErrorKind
  | malformedIdentifier
  | unrecognizedOperator
  | emptyLiteral
  | unrecognizedFlag
  | conflictingFlags
  deriving DecidableEq, Repr

/-- The class of a fault. -/
def ParseFault.kind : ParseFault → ParseErrorKind
  | .rule .emptyExpression => .malformedIdentifier
  | .rule .missingOperator => .unrecognizedOperator
  | .rule (.unexpectedByte _ _) => .malformedIdentifier
  | .rule .missingField => .malformedIdentifier
  | .rule (.unknownOperator _) => .unrecognizedOperator
  | .rule (.missingOperand _) => .emptyLiteral
  | .rule (.separatedOperator _ _) => .unrecognizedOperator
  | .flag .unknownFlag => .unrecognizedFlag
  | .flag .nothingSelected => .unrecognizedFlag
  | .flag (.conflict _) => .conflictingFlags

/-- The wording of a fault. -/
def ParseFault.reason : ParseFault → Bytes
  | .rule .emptyExpression => utf8 "empty expression"
  | .rule .missingOperator => utf8 "missing comparison operator"
  | .rule (.unexpectedByte byte position) =>
    utf8 "unexpected character '" ++ [byte] ++ utf8 "' at position " ++ Numeral.ofNat position
  | .rule .missingField => utf8 "missing field name"
  | .rule (.unknownOperator run) => utf8 "unknown operator \"" ++ run ++ utf8 "\""
  | .rule (.missingOperand operator) =>
    utf8 "nothing to compare with after \"" ++ operator.token ++ utf8 "\""
  | .rule (.separatedOperator operator byte) =>
    utf8 "operator \"" ++ operator.token ++ utf8 "\" followed by a separated '" ++ [byte] ++
      utf8 "'"
  | .flag .unknownFlag => utf8 "unknown flag"
  | .flag .nothingSelected => utf8 "no annotation flag to select"
  | .flag (.conflict other) => utf8 "cannot be combined with " ++ other

/-! ### Errors -/

/-- A refused rule or flag. -/
structure ParseError where
  fault : ParseFault
  /-- The trimmed text at fault. -/
  expression : Bytes
  /-- Its place in the list it stands in, counted from zero. -/
  index : Nat := 0
  deriving DecidableEq, Repr

/-- What an error of a class is about; a class without a name counts as one of rules. -/
def ParseErrorKind.subject : Option ParseErrorKind → Bytes
  | some .unrecognizedFlag => utf8 "flag"
  | some .conflictingFlags => utf8 "flag"
  | _ => utf8 "rule"

/-- The message on a refused rule or flag. -/
def ParseErrorKind.message (kind : Option ParseErrorKind) (index : Nat)
    (expression reason : Bytes) : Bytes :=
  utf8 "Invalid " ++ subject kind ++ utf8 " #" ++ Numeral.ofNat index ++
    utf8 " \"" ++ expression ++ utf8 "\": " ++ reason

/-- The message of an error. -/
def ParseError.describe (error : ParseError) : Bytes :=
  ParseErrorKind.message error.fault.kind error.index error.expression error.fault.reason

end FieldRules

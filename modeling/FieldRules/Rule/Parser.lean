import FieldRules.Rule.Basic
import FieldRules.ParseError
import FieldRules.Text.Trim

/-!
# Reading rules

A rule is a field name, an operator and a literal, with white space allowed between them.

* `Rule.ofTrimmed` reads a rule without white space at its ends.
* `Rule.parse` reads a rule, `Rule.parseAll` a list of them up to the first that is refused.
-/

namespace FieldRules

namespace Ascii

/-- The bytes of a field name: letters, digits and the underscore. -/
def isIdentifier (b : UInt8) : Bool :=
  isAlphanumeric b || b == underscore

/-- The bytes that operators are made of. -/
def isOperator (b : UInt8) : Bool :=
  b == equals || b == exclamation || b == less || b == greater

end Ascii

namespace Rule

/-- Reads the literal of a rule from what follows the operator. An operator byte that white space
separates from the operator is a slip and not the start of a literal. -/
def parseOperand (operator : Operator) (after : Bytes) : Except RuleFault Literal :=
  let literal := after.trim
  match literal.head?, after.head? with
  | some first, some next =>
    if Ascii.isOperator first && Ascii.isSpace next then .error (.separatedOperator operator first)
    else .ok (.ofText literal)
  | _, _ => .error (.missingOperand operator)

/-- Reads a rule that has no white space at its ends. -/
def ofTrimmed (text : Bytes) : Except RuleFault Rule :=
  let field := text.takeWhile Ascii.isIdentifier
  let rest := (text.dropWhile Ascii.isIdentifier).dropWhile Ascii.isSpace
  match rest with
  | [] => .error (if field.isEmpty then .emptyExpression else .missingOperator)
  | b :: _ =>
    if !Ascii.isOperator b then .error (.unexpectedByte b (text.length - rest.length))
    else if field.isEmpty then .error .missingField
    else
      match Operator.atStart? rest with
      | none => .error (.unknownOperator (rest.takeWhile Ascii.isOperator))
      | some operator => do
        let operand ← parseOperand operator (rest.drop operator.token.length)
        return ⟨field, operator, operand, text⟩

/-- Reads a rule. -/
def parse (text : Bytes) : Except ParseError Rule :=
  (ofTrimmed text.trim).mapError fun fault => ⟨.rule fault, text.trim, 0⟩

/-- Reads rules in order, the first of them having the given place; the error tells the place of the
first rule that is refused. -/
def parseFrom (index : Nat) : List Bytes → Except ParseError (List Rule)
  | [] => .ok []
  | text :: rest => do
    let rule ← (parse text).mapError fun error => { error with index }
    let rules ← parseFrom (index + 1) rest
    return rule :: rules

/-- Reads a list of rules. -/
def parseAll (texts : List Bytes) : Except ParseError (List Rule) :=
  parseFrom 0 texts

@[simp] theorem parseAll_nil : parseAll [] = .ok [] := rfl

end Rule

end FieldRules

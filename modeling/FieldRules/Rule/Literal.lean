import FieldRules.Binary64.Layout
import FieldRules.Json.Reader

/-!
# Literals

* `Literal` is what a rule compares with.
* `Literal.ofText` reads a literal, `Literal.text` writes one.

Whatever is not read as a number or a boolean is a string, taken as it stands.
-/

namespace FieldRules

/-- The value on the right of a rule. -/
inductive Literal
  | integer (n : Int64)
  | double (x : Binary64)
  | bool (b : Bool)
  | string (s : Bytes)
  deriving DecidableEq

namespace Literal

/-- The name of the type of a literal. -/
def typeName : Literal → Bytes
  | .integer _ => utf8 "integer"
  | .double _ => utf8 "number"
  | .bool _ => utf8 "boolean"
  | .string _ => utf8 "string"

/-- A literal as a rule writes it. -/
def text : Literal → Bytes
  | .integer n => Numeral.ofInt n.toInt
  | .double x => x.literalText
  | .bool true => utf8 "true"
  | .bool false => utf8 "false"
  | .string s => s

/-- The literal of an integer: kept exactly within 64 bits, else the nearest binary64 number. -/
def ofInteger (n : Int) : Literal :=
  if Int64.minValue.toInt ≤ n ∧ n ≤ Int64.maxValue.toInt then .integer (Int64.ofInt n) else
    .double (Binary64.ofInt n)

/-- The literal that a text stands for. -/
def ofText (text : Bytes) : Literal :=
  match Json.read text with
  | .ok (.integer n) => ofInteger n
  | .ok (.double x) => .double x
  | .ok (.bool b) => .bool b
  | _ => .string text

/-- Equality of the values of two literals of one type; numbers compare as numbers, so that the two
zeros are equal. -/
def sameValue : Literal → Literal → Bool
  | .integer m, .integer n => m == n
  | .double x, .double y => x.sameNumber y
  | .bool a, .bool b => a == b
  | .string s, .string t => s == t
  | _, _ => false

end Literal

end FieldRules

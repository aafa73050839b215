import FieldRules.Binary64.Shortest

/-!
# Number texts

Two texts of a binary64 value. They differ in the digits, in the width up to which a number is
written without an exponent, and in the text of what is not finite.

* `Layout.magnitude` lays digits out around a decimal point.
* `DoublePrinter` chooses the digits within a JSON document.
* `Binary64.jsonText` is the text within a JSON document.
* `Binary64.literalText` is the text within a rule, with the shortest digits.

Either text of a finite value has a point or an exponent, so that it never reads as an integer.
-/

namespace FieldRules

/-- How digits are laid out: with at most `widest` digits in front of the point, and at most three
zeros behind it, a number is written without an exponent. -/
structure Layout where
  widest : Nat
  deriving DecidableEq, Repr

namespace Layout

/-- In a JSON document up to fifteen digits stand in front of the point. -/
def json : Layout := ⟨15⟩

/-- In a rule up to sixteen digits stand in front of the point. -/
def literal : Layout := ⟨16⟩

/-- A run of zeros. -/
def zeros (count : Nat) : Bytes :=
  List.replicate count Ascii.zero

/-- The digits with the decimal point after the first `point` of them. A whole number gets one zero
behind the point. -/
def positional (digits : Bytes) (point : Int) : Bytes :=
  if point ≤ 0 then utf8 "0." ++ zeros (-point).toNat ++ digits
  else if digits.length ≤ point.toNat then
    digits ++ zeros (point.toNat - digits.length) ++ utf8 ".0"
  else digits.take point.toNat ++ Ascii.dot :: digits.drop point.toNat

/-- An exponent with its sign and at least two digits. -/
def exponent (e : Int) : Bytes :=
  let digits := Numeral.ofNat e.natAbs
  (if e < 0 then Ascii.minus else Ascii.plus) :: zeros (2 - digits.length) ++ digits

/-- The digits with the decimal point after the first of them, and the exponent that makes up for
it. A single digit has no point. -/
def scientific (digits : Bytes) (point : Int) : Bytes :=
  let fraction := digits.drop 1
  digits.take 1 ++ (if fraction.isEmpty then [] else Ascii.dot :: fraction) ++ Ascii.lowerE ::
    exponent (point - 1)

/-- The text of a positive number. -/
def magnitude (layout : Layout) (number : Decimal) : Bytes :=
  let digits := Numeral.ofNat number.coefficient
  let point := digits.length + number.exponent
  if -4 < point ∧ point ≤ layout.widest then positional digits point else scientific digits point

/-- The text of the finite value with a sign and a rank, whose magnitude is shown as the number
that is chosen for its rank. -/
def finite (layout : Layout) (decimal : Nat → Decimal) (negative : Bool) (rank : Nat) : Bytes :=
  (if negative then [Ascii.minus] else []) ++
    if rank = 0 then utf8 "0.0" else layout.magnitude (decimal rank)

end Layout

/-- The printer of JSON documents: the decimal number that the value of a rank is shown as. A value
is between two others, so there are many numbers to choose from that read back as it. -/
class DoublePrinter where
  decimal : Nat → Decimal

/-- Where no printer is given, the shortest digits are printed. -/
instance DoublePrinter.shortest : DoublePrinter := ⟨Binary64.shortest⟩

namespace Binary64

/-- The text of a value in a JSON document, which has none for what is not finite. -/
def jsonText [DoublePrinter] : Binary64 → Bytes
  | .finite negative rank => Layout.json.finite DoublePrinter.decimal negative rank
  | _ => utf8 "null"

/-- The text of a value as the literal of a rule. -/
def literalText : Binary64 → Bytes
  | .finite negative rank => Layout.literal.finite shortest negative rank
  | .infinite false => utf8 "inf.0"
  | .infinite true => utf8 "-inf.0"
  | .nan => utf8 "nan.0"

end Binary64

end FieldRules

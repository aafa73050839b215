import FieldRules.Binary64.Rounding
import FieldRules.Text.Numeral

/-!
# Shortest decimal numbers

A finite binary64 value is written with the fewest digits that read back as it; of the numbers with
that many digits it takes the one nearest to the value, and of two equally near ones the one with an
even last digit.

* `Decimal.stripZeros` takes the zeros off the end of a coefficient.
* `Binary64.exactDecimal` is the whole decimal expansion of a value, which is finite.
* `Binary64.neighbours` are the two numbers next to a value on a coarser decimal grid.
* `Binary64.shortest` is the number to write.

Main statement: `ofDecimal_shortest_of_find`, a number found by the search reads back.
-/

namespace FieldRules

/-- The same number with a coefficient that does not end in zero. -/
def Decimal.stripZeros (number : Decimal) : Decimal :=
  let zeros := ((Numeral.ofNat number.coefficient).reverse.takeWhile (· == Ascii.zero)).length
  ⟨number.coefficient / Nat.pow 10 zeros, number.exponent + zeros⟩

namespace Binary64

/-- The decimal expansion of the value of a rank: one unit is `5 ^ 1074 * 10 ^ (-1074)`. -/
def exactDecimal (rank : Nat) : Decimal :=
  ⟨units rank * Nat.pow 5 unitPlaces, -unitPlaces⟩

/-- The two numbers on either side of `number` that do without its last `dropped` digits, the nearer
first. -/
def neighbours (number : Decimal) (dropped : Nat) : List Decimal :=
  let step := Nat.pow 10 dropped
  let lower := number.coefficient / step
  let rest := number.coefficient % step
  let below := Decimal.stripZeros ⟨lower, number.exponent + dropped⟩
  let above := Decimal.stripZeros ⟨lower + 1, number.exponent + dropped⟩
  match compare (2 * rest) step with
  | .lt => [below, above]
  | .gt => [above, below]
  | .eq => if lower % 2 = 0 then [below, above] else [above, below]

/-- The numbers to try for a rank: those with one digit, with two, and so on up to seventeen, which
always suffice. -/
def candidates (rank : Nat) : List Decimal :=
  let number := exactDecimal rank
  let length := (Numeral.ofNat number.coefficient).length
  (List.range 17).flatMap fun n => neighbours number (length - (n + 1))

/-- Holds if a decimal number reads back as the value of a rank. -/
def readsBack (rank : Nat) (number : Decimal) : Bool :=
  ofDecimal false number == ofRank false rank

/-- The first candidate that reads back, and the whole expansion should there be none. -/
def shortest (rank : Nat) : Decimal :=
  ((candidates rank).find? (readsBack rank)).getD (exactDecimal rank)

theorem ofDecimal_shortest_of_find {rank : Nat} {number : Decimal}
    (h : (candidates rank).find? (readsBack rank) = some number) :
    ofDecimal false (shortest rank) = ofRank false rank := by
  have := List.find?_some h
  simpa [shortest, h, readsBack] using this

end Binary64

end FieldRules

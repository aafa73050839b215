import FieldRules.Binary64.Basic

/-!
# Rounding to binary64

* `Binary64.nearestRank` is the rank nearest to a ratio; of two equally near ones it is the even
  one.
* `Binary64.ofRatio`, `Binary64.ofInt` and `Binary64.ofDecimal` give the value nearest to a ratio,
  an integer and a decimal number. Whatever lies half a step or more above the greatest finite value
  becomes an infinity.
-/

namespace FieldRules

/-- The number `coefficient * 10 ^ exponent`. -/
structure Decimal where
  coefficient : Nat
  exponent : Int
  deriving DecidableEq, Repr

namespace Binary64

/-- The greatest rank whose units do not exceed `magnitude`. -/
def rankBelow (magnitude : Nat) : Nat :=
  if magnitude < binade then magnitude
  else
    let doublings := magnitude.log2 - 52
    doublings * binade + magnitude / Nat.pow 2 doublings

/-- The rank whose units are nearest to `numerator / denominator`, the even rank if two are equally
near. -/
def nearestRank (numerator denominator : Nat) : Nat :=
  let below := rankBelow (numerator / denominator)
  match compare (2 * numerator) ((units below + units (below + 1)) * denominator) with
  | .lt => below
  | .eq => if below % 2 = 0 then below else below + 1
  | .gt => below + 1

/-- The number of binary places of one unit, the smallest positive value. -/
def unitPlaces : Nat := 1074

/-- The number of units that make up the number one. -/
def unitsPerOne : Nat := Nat.pow 2 unitPlaces

/-- The value nearest to `numerator / denominator`, with the given sign. -/
def ofRatio (negative : Bool) (numerator denominator : Nat) : Binary64 :=
  ofRank negative (nearestRank (numerator * unitsPerOne) denominator)

/-- The value nearest to an integer. -/
def ofInt (n : Int) : Binary64 :=
  ofRatio (decide (n < 0)) n.natAbs 1

/-- The value nearest to a decimal number, with the given sign. The first three cases answer without
writing the power of ten out: `10 ^ 310` is beyond every finite value, and a number with `2 * number
* 2 ^ 1074 ≤ 1` rounds to zero, which holds below since `coefficient < 2 ^ (log2 coefficient + 1)`
and `10 ^ exponent ≤ 2 ^ (3 * exponent)` for a negative exponent. -/
def ofDecimal (negative : Bool) (number : Decimal) : Binary64 :=
  if number.coefficient = 0 then zero negative
  else if 310 ≤ number.exponent then .infinite negative
  else if number.coefficient.log2 + 1 + 3 * number.exponent ≤ -1075 then zero negative
  else if 0 ≤
    number.exponent then ofRatio negative (number.coefficient * Nat.pow 10 number.exponent.toNat) 1
  else ofRatio negative number.coefficient (Nat.pow 10 (-number.exponent).toNat)

end Binary64

end FieldRules

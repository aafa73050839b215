/-!
# Binary64 numbers

The values of the 64-bit binary floating-point format, with exact comparison.

* `Binary64` is a finite value, given by its sign and its rank, an infinity, or not a number.
* `Binary64.units` is the magnitude that belongs to a rank, counted in the smallest positive value.
* `Binary64.order?` compares two values as the numbers they are; the two zeros are equal.

The rank of a magnitude is its place among the nonnegative finite values in increasing order: zero
has rank 0, the smallest positive value rank 1.
-/

namespace FieldRules

/-- The number of values from one power of two up to the next. -/
def Binary64.binade : Nat := Nat.pow 2 52

/-- A floating-point number of 64 bits. -/
inductive Binary64
  | finite (negative : Bool) (rank : Fin (2047 * Binary64.binade))
  | infinite (negative : Bool)
  | nan
  deriving DecidableEq, Repr

namespace Binary64

theorem binade_eq : binade = 4503599627370496 := rfl

/-- The number of nonnegative finite values. -/
abbrev rankCount : Nat := 2047 * binade

/-- The magnitude of the given rank in units of `2 ^ (-1074)`. Values below `2 ^ 52` units lie one
unit apart; above, every doubling has `2 ^ 52` values. -/
def units (rank : Nat) : Nat :=
  if rank < binade then rank else (binade + rank % binade) * Nat.pow 2 (rank / binade - 1)

@[simp] theorem units_zero : units 0 = 0 := rfl

/-- The value of a sign and a rank; ranks beyond the finite values stand for an infinity. -/
def ofRank (negative : Bool) (rank : Nat) : Binary64 :=
  if h : rank < rankCount then .finite negative ⟨rank, h⟩ else .infinite negative

/-- The zero with the given sign. -/
def zero (negative : Bool) : Binary64 :=
  .finite negative ⟨0, by decide⟩

/-- The number that a value stands for, in units of `2 ^ (-1074)`. An infinity lies where the next
value after the greatest finite one would; what is not a number has no place. -/
def extent : Binary64 → Option Int
  | .finite negative rank => some (if negative then -(units rank : Int) else units rank)
  | .infinite negative => some (if negative then -(units rankCount : Int) else units rankCount)
  | .nan => none

@[simp] theorem extent_finite (negative : Bool) (rank : Fin rankCount) :
    extent (.finite negative rank) = some (if negative then -(units rank : Int) else units rank) :=
      rfl

@[simp] theorem extent_nan : extent .nan = none := rfl

/-- The order of two values as numbers, or none if one of them is not a number. -/
def order? (x y : Binary64) : Option Ordering :=
  match x.extent, y.extent with
  | some a, some b => some (compare a b)
  | _, _ => none

@[simp] theorem order?_nan_left (y : Binary64) : order? .nan y = none := rfl

@[simp] theorem order?_nan_right (x : Binary64) : order? x .nan = none := by
  cases x <;> rfl

theorem order?_eq_some {x y : Binary64} {a b : Int} (hx : x.extent = some a)
    (hy : y.extent = some b) :
    order? x y = some (compare a b) := by
  simp [order?, hx, hy]

/-- Equality as numbers: zero equals negative zero, and what is not a number equals nothing. -/
def sameNumber (x y : Binary64) : Bool :=
  order? x y == some .eq

/-- Holds of the finite values. -/
def isFinite : Binary64 → Bool
  | .finite .. => true
  | _ => false

end Binary64

end FieldRules

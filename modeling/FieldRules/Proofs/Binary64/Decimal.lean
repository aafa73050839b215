import FieldRules.Binary64.Shortest
import FieldRules.Proofs.Binary64.Rank

/-!
# Decimal numbers as binary64 values

* `ofDecimal_eq_ofRank`: reading a decimal number is rounding the ratio that it stands for, without
  exception.
* `decimalRank_shift`: a power of ten may stand in the coefficient or in the exponent.
* `ReadsBack`: the numbers that values can be written as without a loss.
* `readsBack_shortest`: the shortest number that is written for a value reads back as it.
* `isFinite_ofInt`: integers of 64 bits round to finite values.
-/

namespace FieldRules.Binary64

/-- The rank nearest to a decimal number. -/
def decimalRank (number : Decimal) : Nat :=
  nearestRank (number.coefficient * 10 ^ number.exponent.toNat * unitsPerOne)
    (10 ^ (-number.exponent).toNat)

theorem ofRank_of_lt {negative : Bool} {rank : Nat} (h : rank < rankCount) :
    ofRank negative rank = .finite negative ⟨rank, h⟩ := dif_pos h

theorem ofRank_of_le {negative : Bool} {rank : Nat} (h : rankCount ≤ rank) :
    ofRank negative rank = .infinite negative := dif_neg (Nat.not_lt.2 h)

theorem isFinite_ofRank_iff {negative : Bool} {rank : Nat} :
    (ofRank negative rank).isFinite = true ↔ rank < rankCount := by
  rcases Nat.lt_or_ge rank rankCount with hlt | hge
  · rw [ofRank_of_lt hlt]
    exact iff_of_true rfl hlt
  · rw [ofRank_of_le hge]
    exact iff_of_false nofun (Nat.not_lt.2 hge)

theorem eq_of_ofRank_eq {negative : Bool} {rank other : Nat} (h : rank < rankCount)
    (heq : ofRank negative other = ofRank negative rank) : other = rank := by
  rw [ofRank_of_lt h] at heq
  unfold ofRank at heq
  split at heq
  · simpa using heq
  · cases heq

/-! ### Powers -/

theorem binade_mul_two_pow (n : Nat) : binade * 2 ^ n = 2 ^ (52 + n) := by
  rw [binade, Nat.pow_eq, ← Nat.pow_add]

theorem two_pow_mul_unitsPerOne (n : Nat) : 2 ^ n * unitsPerOne = 2 ^ (n + unitPlaces) := by
  unfold unitsPerOne
  generalize unitPlaces = places
  rw [Nat.pow_eq, ← Nat.pow_add]

theorem five_pow_mul_unitsPerOne : Nat.pow 5 unitPlaces * unitsPerOne = 10 ^ unitPlaces := by
  unfold unitsPerOne
  generalize unitPlaces = places
  rw [Nat.pow_eq, Nat.pow_eq, ← Nat.mul_pow]

theorem units_rankCount : units rankCount = 2 ^ 1024 * unitsPerOne := by
  rw [show rankCount = (2046 + 1) * binade + 0 by decide, units_add (Nat.zero_le _), Nat.add_zero,
    binade_mul_two_pow, two_pow_mul_unitsPerOne, show 52 + 2046 = 1024 + unitPlaces by decide]

/-! ### Numbers out of range -/

theorem decimalRank_of_coefficient_zero {number : Decimal} (h : number.coefficient = 0) :
    decimalRank number = 0 := by
  refine nearestRank_eq_zero (Nat.pow_pos (by decide)) ?_
  rw [h, Nat.zero_mul, Nat.zero_mul]
  exact Nat.zero_le _

/-- From `10 ^ 310` on all is beyond the greatest finite value. -/
theorem rankCount_le_decimalRank {number : Decimal} (hpos : number.coefficient ≠ 0)
    (h : 310 ≤ number.exponent) :
    rankCount ≤ decimalRank number := by
  refine le_nearestRank (Nat.pow_pos (by decide)) ?_
  have hdigits : 310 ≤ number.exponent.toNat := by omega
  have hwhole : (-number.exponent).toNat = 0 := by omega
  have hten : 2 ^ 1024 ≤ 10 ^ 310 := by decide +kernel
  -- stated for any number of digits, so that the power is not written out
  have hpower (digits : Nat) (h : digits ≤ number.exponent.toNat) : 10 ^ digits ≤
      10 ^ number.exponent.toNat :=
    Nat.pow_le_pow_right (by decide) h
  have hmagnitude : 2 ^ 1024 ≤ number.coefficient * 10 ^ number.exponent.toNat :=
    (hten.trans (hpower 310 hdigits)).trans (Nat.le_mul_of_pos_left _ (Nat.pos_of_ne_zero hpos))
  rw [units_rankCount, hwhole, Nat.pow_zero, Nat.mul_one]
  exact Nat.mul_le_mul_right _ hmagnitude

theorem decimalRank_of_small {number : Decimal}
    (h : number.coefficient.log2 + 1 + 3 * number.exponent ≤ -1075) : decimalRank number = 0 := by
  refine nearestRank_eq_zero (Nat.pow_pos (by decide)) ?_
  obtain ⟨digits, hdigits⟩ : ∃ digits : Nat, number.exponent = -digits :=
    ⟨(-number.exponent).toNat, by omega⟩
  rw [show number.exponent.toNat =
    0 by omega, show (-number.exponent).toNat = digits by omega, Nat.pow_zero,
    Nat.mul_one]
  have hcoefficient : number.coefficient ≤ 2 ^ (number.coefficient.log2 + 1) :=
    Nat.le_of_lt Nat.lt_log2_self
  calc 2 * (number.coefficient * unitsPerOne)
      ≤ 2 * (2 ^ (number.coefficient.log2 + 1) * unitsPerOne) :=
        Nat.mul_le_mul_left 2 (Nat.mul_le_mul_right _ hcoefficient)
    _ = 2 ^ (number.coefficient.log2 + 1 + unitPlaces + 1) := by
        rw [two_pow_mul_unitsPerOne, Nat.mul_comm, ← Nat.pow_succ]
    _ ≤ 2 ^ (3 * digits) := Nat.pow_le_pow_right (by decide) (by rw [unitPlaces]; omega)
    _ = 8 ^ digits := by rw [Nat.pow_mul]
    _ ≤ 10 ^ digits := Nat.pow_le_pow_left (by decide) digits

/-! ### Reading -/

/-- Reading a decimal number is rounding it. -/
theorem ofDecimal_eq_ofRank (negative : Bool) (number : Decimal) :
    ofDecimal negative number = ofRank negative (decimalRank number) := by
  unfold ofDecimal
  split_ifs with hzero hlarge hsmall hwhole
  · rw [decimalRank_of_coefficient_zero hzero]
    rfl
  · exact (ofRank_of_le (rankCount_le_decimalRank hzero hlarge)).symm
  · rw [decimalRank_of_small hsmall]
    rfl
  · rw [decimalRank, show (-number.exponent).toNat = 0 by omega, Nat.pow_zero, ofRatio, Nat.pow_eq]
  · rw [decimalRank,
      show number.exponent.toNat = 0 by omega, Nat.pow_zero, Nat.mul_one, ofRatio, Nat.pow_eq]

/-- A power of ten may stand in the coefficient or in the exponent. -/
theorem decimalRank_shift (coefficient zeros : Nat) (exponent : Int) :
    decimalRank ⟨coefficient * 10 ^ zeros, exponent⟩ =
      decimalRank ⟨coefficient, exponent + zeros⟩ := by
  refine nearestRank_congr (Nat.pow_pos (by decide)) (Nat.pow_pos (by decide)) ?_
  have hpowers : 10 ^ zeros * 10 ^ exponent.toNat * 10 ^ (-(exponent + zeros)).toNat =
      10 ^ (exponent + zeros).toNat * 10 ^ (-exponent).toNat := by
    rw [← Nat.pow_add, ← Nat.pow_add, ← Nat.pow_add]
    congr 1
    omega
  calc coefficient * 10 ^ zeros * 10 ^ exponent.toNat * unitsPerOne *
        10 ^ (-(exponent + zeros)).toNat
      = coefficient * unitsPerOne *
          (10 ^ zeros * 10 ^ exponent.toNat * 10 ^ (-(exponent + zeros)).toNat) := by ring
    _ = coefficient * unitsPerOne * (10 ^ (exponent + zeros).toNat * 10 ^ (-exponent).toNat) := by
      rw [hpowers]
    _ = coefficient * 10 ^ (exponent + zeros).toNat * unitsPerOne * 10 ^ (-exponent).toNat := by
      ring

/-! ### Writing -/

theorem decimalRank_exactDecimal (rank : Nat) : decimalRank (exactDecimal rank) = rank := by
  have hwhole : (-(unitPlaces : Int)).toNat = 0 := by omega
  have hplaces : (-(-(unitPlaces : Int))).toNat = unitPlaces := by omega
  rw [decimalRank, exactDecimal, hwhole, hplaces, Nat.pow_zero, Nat.mul_one, Nat.mul_assoc,
    five_pow_mul_unitsPerOne]
  exact nearestRank_units (Nat.pow_pos (by decide))

/-- The shortest number for a value reads back as it, whether the search finds a number or not. -/
theorem ofDecimal_shortest (rank : Nat) : ofDecimal false (shortest rank) = ofRank false rank := by
  cases hfind : (candidates rank).find? (readsBack rank) with
  | some number => exact ofDecimal_shortest_of_find hfind
  | none => rw [shortest, hfind, Option.getD_none, ofDecimal_eq_ofRank, decimalRank_exactDecimal]

/-- Holds of a choice of numbers for the positive finite values if each reads back as its value. -/
def ReadsBack (decimal : Nat → Decimal) : Prop :=
  ∀ rank, 0 < rank → rank < rankCount → ofDecimal false (decimal rank) = ofRank false rank

theorem readsBack_shortest : ReadsBack shortest := fun rank _ _ => ofDecimal_shortest rank

namespace ReadsBack

variable {decimal : Nat → Decimal} {rank : Nat}

theorem decimalRank_eq (hdecimal : ReadsBack decimal) (hpos : 0 < rank) (h : rank < rankCount) :
    decimalRank (decimal rank) = rank := by
  apply eq_of_ofRank_eq h
  rw [← ofDecimal_eq_ofRank false, hdecimal rank hpos h]

/-- A value other than zero is not written with the digit zero alone. -/
theorem coefficient_pos (hdecimal : ReadsBack decimal) (hpos : 0 < rank) (h : rank < rankCount) :
    0 < (decimal rank).coefficient := by
  by_contra hzero
  have hrank := hdecimal.decimalRank_eq hpos h
  rw [decimalRank_of_coefficient_zero (Nat.eq_zero_of_not_pos hzero)] at hrank
  omega

end ReadsBack

/-! ### Integers -/

/-- Numbers up to `2 ^ 64` are far from the greatest finite value. -/
theorem nearestRank_lt_rankCount {magnitude : Nat} (h : magnitude ≤ 2 ^ 64) :
    nearestRank (magnitude * unitsPerOne) 1 < rankCount := by
  have hrank : nearestRank (magnitude * unitsPerOne) 1 ≤ (1086 + 1) * binade + 0 := by
    refine nearestRank_le (by decide) ?_
    rw [units_add (Nat.zero_le _), Nat.mul_one, Nat.add_zero, binade_mul_two_pow,
      show 52 + 1086 = 64 + unitPlaces by decide, ← two_pow_mul_unitsPerOne]
    exact Nat.mul_le_mul_right _ h
  exact lt_of_le_of_lt hrank (by decide)

theorem isFinite_ofInt {n : Int} (h : n.natAbs ≤ 2 ^ 64) : (ofInt n).isFinite = true := by
  exact isFinite_ofRank_iff.2 (nearestRank_lt_rankCount h)

end FieldRules.Binary64

import FieldRules.Proofs.Binary64.Rational
import Mathlib.Tactic.Linarith

/-!
# The nearest value

* `IsNearest`: the sign and the rank of the finite value nearest to a number, said without the way
  it is found.
* `IsNearest.unique`: there is one at most.
* `nearestRank_le_iff`: which ratios round to a rank or a lower one.
* `isNearest_ofInt`: an integer rounds to the value nearest to it.
* `isFinite_ofInt_iff`: this is a finite one for the integers below `2 ^ 1024 - 2 ^ 970` in size.
-/

namespace FieldRules.Binary64

/-- Holds of the sign and the rank of the finite value nearest to a number. If another value is as
near, the rank is even, and so is the last binary digit. -/
structure IsNearest (q : ℚ) (negative : Bool) (rank : Fin rankCount) : Prop where
  sign : negative = decide (q < 0)
  nearest : ∀ (sign : Bool) (other : Fin rankCount), |q - rational negative rank| ≤
    |q - rational sign other|
  even : ∀ (sign : Bool) (other : Fin rankCount), rational sign other ≠ rational negative rank →
    |q - rational sign other| = |q - rational negative rank| → rank.val % 2 = 0

/-! ### Uniqueness -/

theorem rational_false_lt_iff {rank other : Nat} :
    rational false rank < rational false other ↔ rank < other := by
  rw [rational, rational, div_lt_div_iff_of_pos_right cast_unitsPerOne_pos, Int.cast_lt]
  simp [signedUnits, units_strictMono.lt_iff_lt]

theorem rational_true_lt_iff {rank other : Nat} :
    rational true rank < rational true other ↔ other < rank := by
  rw [rational, rational, div_lt_div_iff_of_pos_right cast_unitsPerOne_pos, Int.cast_lt]
  simp [signedUnits, units_strictMono.lt_iff_lt]

/-- A number between two others is nearer to what lies halfway between these. -/
theorem abs_sub_lt_of_between {q a b c : ℚ} (hab : a < b) (hbc : b < c) (h : |q - a| = |q - c|) :
    |q - b| < |q - a| := by
  have hhalf : q - a = c - q := by
    rcases abs_eq_abs.1 h with heq | heq
    · linarith
    · linarith
  rw [abs_of_nonneg (by linarith : (0 : ℚ) ≤ q - a), abs_lt]
  constructor <;> linarith

/-- Of two nearest values the second is not the greater one: between two even ranks lies another,
which would be nearer. -/
theorem IsNearest.rank_le {q : ℚ} {negative sign : Bool} {rank other : Fin rankCount}
    (h : IsNearest q negative rank) (hother : IsNearest q sign other) : other ≤ rank := by
  by_contra hle
  have hlt : rank.val < other.val := not_le.1 hle
  obtain rfl : negative = sign := h.sign.trans hother.sign.symm
  have hdistance : |q - rational negative rank| = |q - rational negative other| :=
    le_antisymm (h.nearest negative other) (hother.nearest negative rank)
  have hne : rational negative other ≠ rational negative rank := by
    cases negative with
    | false => exact (rational_false_lt_iff.2 hlt).ne'
    | true => exact (rational_true_lt_iff.2 hlt).ne
  have heven := h.even negative other hne hdistance.symm
  have heven' := hother.even negative rank hne.symm hdistance
  have hbetween : rank.val + 1 < other.val := by omega
  have hnearer : |q - rational negative (rank.val + 1)| < |q - rational negative rank| := by
    cases negative with
    | false =>
      exact abs_sub_lt_of_between (rational_false_lt_iff.2 (Nat.lt_succ_self _))
        (rational_false_lt_iff.2 hbetween) hdistance
    | true =>
      rw [hdistance]
      exact abs_sub_lt_of_between (rational_true_lt_iff.2 hbetween)
        (rational_true_lt_iff.2 (Nat.lt_succ_self _))
        hdistance.symm
  exact absurd (h.nearest negative ⟨rank.val + 1, by omega⟩) (not_le.2 hnearer)

theorem IsNearest.unique {q : ℚ} {negative sign : Bool} {rank other : Fin rankCount}
    (h : IsNearest q negative rank) (hother : IsNearest q sign other) :
    sign = negative ∧ other = rank :=
  ⟨hother.sign.trans h.sign.symm, le_antisymm (h.rank_le hother) (hother.rank_le h)⟩

/-! ### Rounding -/

section Nearest

variable {numerator denominator rank : Nat}

/-- A ratio rounds to a rank or a lower one exactly if it lies below the midpoint above the rank, or
on it and the rank is even. -/
theorem nearestRank_le_iff (hpos : 0 < denominator) : nearestRank numerator denominator ≤ rank ↔
    2 * numerator < (units rank + units (rank + 1)) * denominator ∨
    2 * numerator = (units rank + units (rank + 1)) * denominator ∧ rank % 2 = 0 := by
  obtain ⟨below, hbelow⟩ : ∃ below, below = rankBelow (numerator / denominator) := ⟨_, rfl⟩
  have hreached : units below * denominator ≤ numerator :=
    (Nat.le_div_iff_mul_le hpos).1 (le_rankBelow_iff.1 hbelow.le)
  have hpassed : numerator < units (below + 1) * denominator :=
    (Nat.div_lt_iff_lt_mul hpos).1 (not_le.1 (mt le_rankBelow_iff.2 (by omega)))
  have hle : below ≤ nearestRank numerator denominator := hbelow ▸ rankBelow_le_nearestRank
  have hsucc : nearestRank numerator denominator ≤ below + 1 := hbelow ▸ nearestRank_le_succ
  rcases lt_trichotomy rank below with hlt | rfl | hgt
  -- the ratio lies above the midpoint
  · have hunits : units rank + units (rank + 1) < units below + units below :=
      Nat.add_lt_add_of_lt_of_le (units_strictMono hlt) (units_strictMono.monotone hlt)
    have hmidpoint : (units rank + units (rank + 1)) * denominator < 2 * numerator := by
      calc (units rank + units (rank + 1)) * denominator
          < (units below + units below) * denominator := Nat.mul_lt_mul_of_pos_right hunits hpos
        _ = 2 * (units below * denominator) := by ring
        _ ≤ 2 * numerator := Nat.mul_le_mul_left 2 hreached
    omega
  · unfold nearestRank
    dsimp only
    rw [← hbelow]
    cases hcompare : compare (2 * numerator) ((units rank + units (rank + 1)) * denominator) with
    | lt => simp [Nat.compare_eq_lt.1 hcompare]
    | eq =>
      rw [Nat.compare_eq_eq.1 hcompare]
      dsimp only
      split_ifs <;> omega
    | gt =>
      have hgt := Nat.compare_eq_gt.1 hcompare
      dsimp only
      omega
  -- the ratio lies below the midpoint
  · have hunits : units (below + 1) + units (below + 1) ≤ units rank + units (rank + 1) :=
      Nat.add_le_add (units_strictMono.monotone hgt)
        (units_strictMono.monotone (Nat.le_succ_of_le hgt))
    have hmidpoint : 2 * numerator < (units rank + units (rank + 1)) * denominator := by
      calc 2 * numerator < 2 * (units (below + 1) * denominator) :=
        Nat.mul_lt_mul_of_pos_left hpassed (by decide)
        _ = (units (below + 1) + units (below + 1)) * denominator := by ring
        _ ≤ (units rank + units (rank + 1)) * denominator := Nat.mul_le_mul_right _ hunits
    omega

/-- No rank is nearer to a whole number of units than the one it rounds to, and if another is as
near, that one is even. -/
theorem nearestRank_nearest (other : Nat) (h : nearestRank numerator 1 = rank) :
    ((numerator : Int) - units rank).natAbs ≤ ((numerator : Int) - units other).natAbs ∧
    (((numerator : Int) - units other).natAbs = ((numerator : Int) - units rank).natAbs →
      other ≠ rank → rank % 2 = 0) := by
  have hle (other : Nat) : nearestRank numerator 1 ≤ other ↔
      2 * numerator < units other + units (other + 1) ∨
      2 * numerator = units other + units (other + 1) ∧ other % 2 = 0 := by
    rw [nearestRank_le_iff Nat.one_pos, Nat.mul_one]
  have habove := (hle rank).1 h.le
  rcases lt_trichotomy other rank with hlt | rfl | hgt
  -- the number lies above the midpoint below the rank, or on it
  · obtain ⟨previous, rfl⟩ := Nat.exists_eq_add_of_lt hlt
    have hbelow := mt (hle (other + previous)).2 (by omega)
    have hother : units other ≤ units (other + previous) := units_strictMono.monotone (by omega)
    have hstep := units_lt_units_succ (other + previous)
    omega
  · exact ⟨le_rfl, fun _ hne => absurd rfl hne⟩
  -- the number lies below the midpoint above the rank, or on it
  · have hother : units (rank + 1) ≤ units other := units_strictMono.monotone hgt
    have hstep := units_lt_units_succ rank
    omega

end Nearest

/-! ### Integers -/

section Integer

variable {n : Int}

/-- Among the values with its own sign a number of units is as far from one as their sizes are, and
farther from the others. -/
theorem natAbs_sub_signedUnits (e : Int) (sign : Bool) (rank : Nat) :
    (e - signedUnits sign rank).natAbs =
      if sign = decide (e < 0) then ((e.natAbs : Int) - units rank).natAbs else
        e.natAbs + units rank := by
  by_cases hsign : e < 0 <;> cases sign <;>
    simp only [signedUnits, hsign, decide_true, decide_false, Bool.true_eq_false,
      Bool.false_eq_true, if_true, if_false] <;>
    omega

/-- The distance of an integer from a value, by their sizes in units. -/
theorem abs_sub_rational (n : Int) (sign : Bool) (rank : Nat) : |(n : ℚ) - rational sign rank| =
    ((if sign = decide (n < 0) then ((n.natAbs * unitsPerOne : Nat) - units rank : Int).natAbs
      else n.natAbs * unitsPerOne + units rank : Nat) : ℚ) / unitsPerOne := by
  have hsign : decide (n < 0) = decide (n * unitsPerOne < 0) :=
    decide_eq_decide.2 mul_unitsPerOne_neg_iff.symm
  rw [hsign, ← natAbs_mul_unitsPerOne, ← natAbs_sub_signedUnits,
    rational, ← mul_unitsPerOne_div n, ← sub_div, abs_div,
    abs_of_pos cast_unitsPerOne_pos, Nat.cast_natAbs, ← Int.cast_sub, Int.cast_abs]

/-- An integer that rounds to a finite value rounds to the one nearest to it. -/
theorem isNearest_ofInt (h : nearestRank (n.natAbs * unitsPerOne) 1 < rankCount) :
    IsNearest n (decide (n < 0)) ⟨nearestRank (n.natAbs * unitsPerOne) 1, h⟩ := by
  have hnearest (other : Nat) :=
    nearestRank_nearest other (rfl : nearestRank (n.natAbs * unitsPerOne) 1 = _)
  generalize nearestRank (n.natAbs * unitsPerOne) 1 = rank at h hnearest
  refine ⟨by simp, ?_, ?_⟩
  · intro sign other
    rw [abs_sub_rational, abs_sub_rational, if_pos rfl,
      div_le_div_iff_of_pos_right cast_unitsPerOne_pos, Nat.cast_le]
    have hother := (hnearest other).1
    dsimp only
    split_ifs <;> omega
  · intro sign other hne heq
    dsimp only at hne heq ⊢
    rw [abs_sub_rational, abs_sub_rational, if_pos rfl, div_left_inj' cast_unitsPerOne_pos.ne',
      Nat.cast_inj] at heq
    split_ifs at heq with hsame
    · refine (hnearest other).2 heq ?_
      rintro rfl
      exact hne (by rw [hsame])
    -- a value with the other sign is no nearer than zero
    · have hzero := hnearest 0
      rw [units_zero] at hzero
      omega

/-- The greatest finite value, and the power of two behind it, have their midpoint at `2 ^ 1024 - 2
^ 970`. -/
theorem units_greatest :
    units (rankCount - 1) + units rankCount = 2 * ((2 ^ 1024 - 2 ^ 970) * unitsPerOne) := by
  have hgreatest : units (rankCount - 1) = (2 ^ 53 - 1) * (2 ^ 971 * unitsPerOne) := by
    rw [show rankCount - 1 = (2045 + 1) * binade +
      (binade - 1) by decide, units_add (Nat.sub_le _ _),
      two_pow_mul_unitsPerOne,
        show binade + (binade - 1) = 2 ^ 53 - 1 by decide, show 971 + unitPlaces = 2045 by decide]
  have hsum : (2 ^ 53 - 1) * 2 ^ 971 + 2 ^ 1024 = 2 * (2 ^ 1024 - 2 ^ 970) := by decide +kernel
  rw [hgreatest, units_rankCount, ← Nat.mul_assoc, ← Nat.add_mul, hsum, Nat.mul_assoc]

/-- The integers that round to finite values are those below the midpoint behind the greatest one;
on it the power of two, which is even, is rounded to. -/
theorem isFinite_ofInt_iff : (ofInt n).isFinite = true ↔ n.natAbs < 2 ^ 1024 - 2 ^ 970 := by
  have hodd : ¬ (rankCount - 1) % 2 = 0 := by decide
  rw [ofInt, ofRatio, isFinite_ofRank_iff, ← Nat.le_sub_one_iff_lt (by decide),
    nearestRank_le_iff Nat.one_pos,
    show rankCount - 1 + 1 = rankCount by decide, units_greatest]
  simp only [hodd, and_false, or_false, Nat.mul_one]
  rw [Nat.mul_lt_mul_left (by decide), Nat.mul_lt_mul_right unitsPerOne_pos]

theorem exists_isNearest_ofInt (h : (ofInt n).isFinite = true) :
    ∃ negative rank, ofInt n = .finite negative rank ∧ IsNearest n negative rank := by
  have hlt := isFinite_ofRank_iff.1 h
  exact ⟨_, _, ofRank_of_lt hlt, isNearest_ofInt hlt⟩

end Integer

end FieldRules.Binary64

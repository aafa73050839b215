import FieldRules.Binary64.Rounding
import Mathlib.Order.Monotone.Basic
import Mathlib.Tactic.Linarith
import Mathlib.Tactic.Ring

/-!
# Ranks and units

The ranks count the nonnegative finite values in increasing order, so that rounding can be read off
the ranks.

* `units_strictMono`: a greater rank has a greater magnitude.
* `le_rankBelow_iff`: `rankBelow` is the greatest rank whose units do not exceed a magnitude.
* `le_nearestRank` and `nearestRank_le`: rounding never passes a value, so that it keeps the values
  themselves.
* `nearestRank_congr`: rounding depends on the ratio alone and not on the two numbers that give it.
-/

namespace FieldRules.Binary64

/-! ### Units -/

theorem units_of_lt {rank : Nat} (h : rank < binade) : units rank = rank := if_pos h

/-- The units within one doubling. Its end belongs to it as well, being the start of the next
one. -/
theorem units_add {doublings offset : Nat} (h : offset ≤ binade) :
    units ((doublings + 1) * binade + offset) = (binade + offset) * 2 ^ doublings := by
  have hge : ¬ (doublings + 1) * binade + offset < binade := by rw [Nat.succ_mul]; omega
  rw [units, if_neg hge, Nat.pow_eq]
  simp only [binade_eq] at h ⊢
  rcases Nat.lt_or_eq_of_le h with hlt | rfl
  · have hdiv : ((doublings + 1) * 4503599627370496 + offset) / 4503599627370496 =
        doublings + 1 := by omega
    have hmod : ((doublings + 1) * 4503599627370496 + offset) % 4503599627370496 =
        offset := by omega
    rw [hdiv, hmod, Nat.add_sub_cancel]
  · have hdiv : ((doublings + 1) * 4503599627370496 + 4503599627370496) / 4503599627370496 =
        doublings + 2 := by
      omega
    have hmod : ((doublings + 1) * 4503599627370496 + 4503599627370496) % 4503599627370496 =
        0 := by omega
    rw [hdiv, hmod, show doublings + 2 - 1 = doublings + 1 by omega, Nat.pow_succ]
    ring

theorem exists_doubling {rank : Nat} (h : binade ≤ rank) :
    ∃ doublings offset, offset < binade ∧ rank = (doublings + 1) * binade + offset := by
  refine ⟨rank / binade - 1, rank % binade, Nat.mod_lt _ (by decide), ?_⟩
  simp only [binade_eq] at h ⊢
  omega

theorem units_lt_units_succ (rank : Nat) : units rank < units (rank + 1) := by
  rcases Nat.lt_or_ge rank binade with hlt | hge
  · rw [units_of_lt hlt]
    rcases Nat.lt_or_ge (rank + 1) binade with hlt' | hge'
    · rw [units_of_lt hlt']
      omega
    -- the last subnormal rank is followed by the first rank of the first doubling
    · have hnext : rank + 1 = (0 + 1) * binade + 0 := by omega
      rw [hnext, units_add (Nat.zero_le _)]
      omega
  · obtain ⟨doublings, offset, hoffset, rfl⟩ := exists_doubling hge
    rw [Nat.add_assoc, units_add (Nat.le_of_lt hoffset), units_add hoffset]
    exact Nat.mul_lt_mul_of_pos_right (by omega) (Nat.two_pow_pos doublings)

theorem units_strictMono : StrictMono units := strictMono_nat_of_lt_succ units_lt_units_succ

/-! ### The rank below a magnitude -/

/-- A magnitude of `2 ^ 52` units or more is at most one doubling above the power of two that its
logarithm gives. -/
theorem binade_le_div {magnitude doublings : Nat} (h : magnitude.log2 = 52 + doublings)
    (hne : magnitude ≠ 0) :
    binade ≤ magnitude / 2 ^ doublings ∧ magnitude / 2 ^ doublings < 2 * binade := by
  have hpos := Nat.two_pow_pos doublings
  constructor
  · rw [Nat.le_div_iff_mul_le hpos, binade, Nat.pow_eq, ← Nat.pow_add, ← h]
    exact Nat.log2_self_le hne
  · rw [Nat.div_lt_iff_lt_mul hpos, binade, Nat.pow_eq, ← Nat.pow_succ', ← Nat.pow_add,
      show 52 + 1 + doublings = magnitude.log2 + 1 by omega]
    exact Nat.lt_log2_self

theorem units_rankBelow_le (magnitude : Nat) : units (rankBelow magnitude) ≤ magnitude ∧
    magnitude < units (rankBelow magnitude + 1) := by
  rcases Nat.lt_or_ge magnitude binade with hlt | hge
  · rw [rankBelow, if_pos hlt]
    have hunits := units_lt_units_succ magnitude
    rw [units_of_lt hlt] at hunits ⊢
    exact ⟨le_rfl, hunits⟩
  · have hne : magnitude ≠ 0 := by
      rintro rfl
      exact absurd hge (by decide)
    have hlog : 52 ≤ magnitude.log2 := (Nat.le_log2 hne).2 hge
    obtain ⟨doublings, hdoublings⟩ := Nat.exists_eq_add_of_le hlog
    obtain ⟨hlow, hhigh⟩ := binade_le_div hdoublings hne
    obtain ⟨offset, hoffset⟩ := Nat.exists_eq_add_of_le hlow
    have hrank : rankBelow magnitude = (doublings + 1) * binade + offset := by
      rw [rankBelow, if_neg (Nat.not_lt.2 hge)]
      simp only [show magnitude.log2 - 52 = doublings by omega, Nat.pow_eq, hoffset]
      ring
    -- the next rank is at the end of the same doubling at the latest
    rw [hrank, Nat.add_assoc, units_add (by omega),
      units_add (by omega), ← Nat.add_assoc, ← hoffset]
    refine ⟨Nat.div_mul_le_self _ _, ?_⟩
    rw [Nat.mul_comm]
    exact Nat.lt_mul_div_succ magnitude (Nat.two_pow_pos doublings)

/-- The rank below a magnitude is the greatest one whose units do not exceed it. -/
theorem le_rankBelow_iff {rank magnitude : Nat} :
    rank ≤ rankBelow magnitude ↔ units rank ≤ magnitude := by
  obtain ⟨hle, hlt⟩ := units_rankBelow_le magnitude
  constructor
  · intro h
    exact (units_strictMono.monotone h).trans hle
  · intro h
    have hunits : units rank < units (rankBelow magnitude + 1) := lt_of_le_of_lt h hlt
    exact Nat.lt_succ_iff.1 (units_strictMono.lt_iff_lt.1 hunits)

/-! ### The nearest rank -/

section Nearest

variable {numerator denominator rank : Nat}

theorem rankBelow_le_nearestRank :
    rankBelow (numerator / denominator) ≤ nearestRank numerator denominator := by
  unfold nearestRank
  dsimp only
  split
  · exact le_rfl
  · split <;> omega
  · omega

theorem nearestRank_le_succ :
    nearestRank numerator denominator ≤ rankBelow (numerator / denominator) + 1 := by
  unfold nearestRank
  dsimp only
  split
  · omega
  · split <;> omega
  · exact le_rfl

/-- A ratio below the midpoint above a rank rounds to that rank or a lower one. -/
theorem nearestRank_eq_rankBelow
    (h : 2 * numerator < (units (rankBelow (numerator / denominator)) +
      units (rankBelow (numerator / denominator) + 1)) * denominator) :
    nearestRank numerator denominator = rankBelow (numerator / denominator) := by
  unfold nearestRank
  dsimp only
  rw [Nat.compare_eq_lt.2 h]

/-- A ratio that reaches a value does not round to a lower one. -/
theorem le_nearestRank (hpos : 0 < denominator) (h : units rank * denominator ≤ numerator) :
    rank ≤ nearestRank numerator denominator := by
  have hbelow : rank ≤ rankBelow (numerator / denominator) :=
    le_rankBelow_iff.2 ((Nat.le_div_iff_mul_le hpos).2 h)
  exact hbelow.trans rankBelow_le_nearestRank

/-- A ratio that does not pass a value does not round to a greater one. -/
theorem nearestRank_le (hpos : 0 < denominator) (h : numerator ≤ units rank * denominator) :
    nearestRank numerator denominator ≤ rank := by
  have hdiv : numerator / denominator ≤ units rank := Nat.div_le_of_le_mul (by rwa [Nat.mul_comm])
  have hunits : units (rankBelow (numerator / denominator)) ≤ units rank :=
    (le_rankBelow_iff.1 le_rfl).trans hdiv
  rcases Nat.lt_or_eq_of_le (units_strictMono.le_iff_le.1 hunits) with hlt | heq
  · exact nearestRank_le_succ.trans hlt
  -- the ratio lies between the rank and the midpoint above it
  · rw [nearestRank_eq_rankBelow, heq]
    have hnext := units_lt_units_succ rank
    rw [heq]
    calc 2 * numerator ≤ 2 * (units rank * denominator) := Nat.mul_le_mul_left 2 h
      _ = (units rank + units rank) * denominator := by ring
      _ < (units rank + units (rank + 1)) * denominator :=
        Nat.mul_lt_mul_of_pos_right (by omega) hpos

theorem nearestRank_units (hpos : 0 < denominator) :
    nearestRank (units rank * denominator) denominator = rank :=
  Nat.le_antisymm (nearestRank_le hpos le_rfl) (le_nearestRank hpos le_rfl)

/-- A ratio of at most half a unit rounds to zero, the even rank of the two next to it. -/
theorem nearestRank_eq_zero (hpos : 0 < denominator) (h : 2 * numerator ≤ denominator) :
    nearestRank numerator denominator = 0 := by
  have hdiv : numerator / denominator = 0 := Nat.div_eq_of_lt (by omega)
  have hbelow : rankBelow 0 = 0 := rfl
  have hunits : units 1 = 1 := rfl
  unfold nearestRank
  simp only [hdiv, hbelow, hunits, units_zero, Nat.zero_add, Nat.one_mul]
  rcases Nat.lt_or_eq_of_le h with hlt | heq
  · rw [Nat.compare_eq_lt.2 hlt]
  · rw [Nat.compare_eq_eq.2 heq]
    rfl

theorem nearestRank_mul_right {factor : Nat} (hfactor : 0 < factor) :
    nearestRank (numerator * factor) (denominator * factor) =
      nearestRank numerator denominator := by
  have hcompare (a b : Nat) : compare (a * factor) (b * factor) = compare a b := by
    rw [Nat.compare_eq_ite_lt, Nat.compare_eq_ite_lt]
    simp only [Nat.mul_lt_mul_right hfactor]
  unfold nearestRank
  simp only [Nat.mul_div_mul_right _ _ hfactor, ← Nat.mul_assoc, hcompare]

/-- Rounding depends on the ratio alone. -/
theorem nearestRank_congr {numerator' denominator' : Nat} (hpos : 0 < denominator)
    (hpos' : 0 < denominator') (h : numerator * denominator' = numerator' * denominator) :
    nearestRank numerator denominator = nearestRank numerator' denominator' := by
  rw [← nearestRank_mul_right hpos', h, Nat.mul_comm denominator, nearestRank_mul_right hpos]

end Nearest

end FieldRules.Binary64

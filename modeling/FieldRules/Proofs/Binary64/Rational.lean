import FieldRules.Proofs.Binary64.Decimal
import Mathlib.Algebra.Order.Field.Rat
import Mathlib.Order.Compare
import Mathlib.Tactic.NormNum
import Mathlib.Tactic.Positivity

/-!
# Values as rational numbers

* `rational` is the number of a sign and a rank, `toRat?` that of a finite value.
* `order?_eq_compare`: finite values are compared as these numbers.
* `OrderSound`: holds of an order that never puts two numbers the wrong way round.
* `exists_orderSound`: the value nearest to an integer lies on no finite value's wrong side.
* `order?_ofInt_of_le`: integers up to `2 ^ 53` in size are kept.
-/

namespace FieldRules

/-- Holds of an order that is right wherever it tells two numbers apart. -/
structure OrderSound (order : Ordering) (a b : ℚ) : Prop where
  lt : order = .lt → a < b
  gt : order = .gt → b < a

theorem OrderSound.swap {order : Ordering} {a b : ℚ} (h : OrderSound order a b) :
    OrderSound order.swap b a where
  lt := fun heq => h.gt (Ordering.swap_eq_lt.1 heq)
  gt := fun heq => h.lt (Ordering.swap_eq_gt.1 heq)

namespace Binary64

variable {x y : Binary64} {a b : ℚ} {e f n : Int}

/-! ### Numbers -/

/-- The units of a sign and a rank. -/
def signedUnits (negative : Bool) (rank : Nat) : Int :=
  if negative then -(units rank : Int) else units rank

/-- The rational number of a sign and a rank. -/
def rational (negative : Bool) (rank : Nat) : ℚ :=
  (signedUnits negative rank : ℚ) / unitsPerOne

/-- The rational number that a finite value is. -/
def toRat? : Binary64 → Option ℚ
  | .finite negative rank => some (rational negative rank)
  | _ => none

theorem unitsPerOne_pos : 0 < unitsPerOne := by
  unfold unitsPerOne
  generalize unitPlaces = places
  exact Nat.two_pow_pos places

theorem cast_unitsPerOne_pos : (0 : ℚ) < unitsPerOne := Nat.cast_pos.2 unitsPerOne_pos

/-- A finite value is the number of its units. -/
theorem exists_extent (h : x.toRat? = some a) :
    ∃ e : Int, x.extent = some e ∧ (∃ rank ≤ rankCount, e.natAbs = units rank) ∧
      a = e / unitsPerOne := by
  cases x with
  | finite negative rank =>
    cases h
    refine ⟨signedUnits negative rank, rfl, ⟨rank, Nat.le_of_lt rank.isLt, ?_⟩, rfl⟩
    cases negative <;> simp [signedUnits]
  | infinite negative => cases h
  | nan => cases h

theorem toRat?_of_extent (hfinite : x.isFinite = true) (hx : x.extent = some e) :
    x.toRat? = some ((e : ℚ) / unitsPerOne) := by
  cases x with
  | finite negative rank =>
    cases hx
    rfl
  | infinite negative => cases hfinite
  | nan => cases hfinite

theorem compare_div_unitsPerOne (e f : Int) :
    compare ((e : ℚ) / unitsPerOne) (f / unitsPerOne) = compare e f := by
  have hmono : StrictMono fun e : Int => (e : ℚ) / unitsPerOne := fun e f h =>
    (div_lt_div_iff_of_pos_right cast_unitsPerOne_pos).2 (Int.cast_lt.2 h)
  rw [← cmp_eq_compare, ← cmp_eq_compare]
  exact hmono.cmp_map_eq e f

/-- Finite values are compared as rational numbers. -/
theorem order?_eq_compare (hx : x.toRat? = some a) (hy : y.toRat? = some b) :
    order? x y = some (compare a b) := by
  obtain ⟨e, he, -, rfl⟩ := exists_extent hx
  obtain ⟨f, hf, -, rfl⟩ := exists_extent hy
  rw [order?_eq_some he hf, compare_div_unitsPerOne]

theorem order?_swap (x y : Binary64) : order? y x = (order? x y).map Ordering.swap := by
  unfold order?
  cases x.extent with
  | none => cases y.extent <;> rfl
  | some e =>
    cases y.extent with
    | none => rfl
    | some f => exact congrArg some Std.OrientedOrd.eq_swap

/-! ### Nearest values to integers -/

/-- The units of the value nearest to an integer, which an infinity has as well. -/
def integerUnits (n : Int) : Nat :=
  units (min (nearestRank (n.natAbs * unitsPerOne) 1) rankCount)

theorem extent_ofRank (negative : Bool) (rank : Nat) :
    extent (ofRank negative rank) =
      some (if negative then -(units (min rank rankCount) : Int) else
        units (min rank rankCount)) := by
  rcases Nat.lt_or_ge rank rankCount with hlt | hge
  · rw [ofRank_of_lt hlt, Nat.min_eq_left (Nat.le_of_lt hlt)]
    rfl
  · rw [ofRank_of_le hge, Nat.min_eq_right hge]
    rfl

theorem extent_ofInt (n : Int) :
    (ofInt n).extent = some (if n < 0 then -(integerUnits n : Int) else integerUnits n) := by
  rw [ofInt, ofRatio, extent_ofRank]
  simp only [decide_eq_true_eq, integerUnits]

/-- Rounding the size of an integer passes no value, on either side. -/
theorem integerUnits_le {rank : Nat} (h : n.natAbs * unitsPerOne ≤ units rank) :
    integerUnits n ≤ units rank := by
  refine units_strictMono.monotone (min_le_of_left_le ?_)
  exact nearestRank_le (by decide) (by rwa [Nat.mul_one])

theorem le_integerUnits {rank : Nat} (hrank : rank ≤ rankCount)
    (h : units rank ≤ n.natAbs * unitsPerOne) :
    units rank ≤ integerUnits n := by
  refine units_strictMono.monotone (Nat.le_min.2 ⟨?_, hrank⟩)
  exact le_nearestRank (by decide) (by rwa [Nat.mul_one])

theorem natAbs_mul_unitsPerOne (n : Int) :
    (n * unitsPerOne : Int).natAbs = n.natAbs * unitsPerOne := by
  rw [Int.natAbs_mul, Int.natAbs_natCast]

theorem mul_unitsPerOne_neg_iff : (n * unitsPerOne : Int) < 0 ↔ n < 0 := by
  have hsign : (n * unitsPerOne : Int) < 0 * unitsPerOne ↔ n < 0 :=
    mul_lt_mul_iff_left₀ (Int.natCast_pos.2 unitsPerOne_pos)
  rwa [zero_mul] at hsign

/-- The value nearest to an integer lies on the side of any value that the integer itself lies
on. -/
theorem sides_of_extent (hx : ∃ rank ≤ rankCount, e.natAbs = units rank)
    (hn : (ofInt n).extent = some f) :
    (n * unitsPerOne ≤ e → f ≤ e) ∧ (e ≤ n * unitsPerOne → e ≤ f) := by
  obtain ⟨rank, hrank, he⟩ := hx
  rw [extent_ofInt] at hn
  cases hn
  have hlow : n.natAbs * unitsPerOne ≤ e.natAbs → integerUnits n ≤ e.natAbs := he ▸ integerUnits_le
  have hhigh : e.natAbs ≤ n.natAbs * unitsPerOne → e.natAbs ≤ integerUnits n :=
    he ▸ le_integerUnits hrank
  rw [← natAbs_mul_unitsPerOne] at hlow hhigh
  simp only [← mul_unitsPerOne_neg_iff (n := n)]
  generalize (n * unitsPerOne : Int) = exact at *
  split_ifs <;> omega

theorem mul_unitsPerOne_div (n : Int) : ((n * unitsPerOne : Int) : ℚ) / unitsPerOne = n := by
  rw [Int.cast_mul, Int.cast_natCast, mul_div_cancel_right₀ _ cast_unitsPerOne_pos.ne']

theorem lt_div_unitsPerOne_iff : (n : ℚ) < e / unitsPerOne ↔ n * unitsPerOne < e := by
  rw [← mul_unitsPerOne_div n, div_lt_div_iff_of_pos_right cast_unitsPerOne_pos, Int.cast_lt]

theorem div_unitsPerOne_lt_iff : (e / unitsPerOne : ℚ) < n ↔ e < n * unitsPerOne := by
  rw [← mul_unitsPerOne_div n, div_lt_div_iff_of_pos_right cast_unitsPerOne_pos, Int.cast_lt]

/-- An integer, rounded, and a finite value have an order, which is right wherever it tells the two
apart. -/
theorem exists_orderSound (n : Int) (hx : x.toRat? = some a) :
    ∃ order, order? (ofInt n) x = some order ∧ OrderSound order n a := by
  obtain ⟨e, he, hrank, rfl⟩ := exists_extent hx
  obtain ⟨hlow, hhigh⟩ := sides_of_extent hrank (extent_ofInt n)
  refine ⟨_, order?_eq_some (extent_ofInt n) he, ?_, ?_⟩
  · intro hlt
    rw [compare_lt_iff_lt] at hlt
    exact lt_div_unitsPerOne_iff.2 (lt_of_not_ge fun h => absurd (hhigh h) (not_le.2 hlt))
  · intro hgt
    rw [compare_gt_iff_gt] at hgt
    exact div_unitsPerOne_lt_iff.2 (lt_of_not_ge fun h => absurd (hlow h) (not_le.2 hgt))

/-! ### Integers that are kept -/

theorem two_pow_unitPlaces : 2 ^ unitPlaces = unitsPerOne := by
  unfold unitsPerOne
  generalize unitPlaces = places
  rw [Nat.pow_eq]

/-- A positive size of at most `2 ^ 53` has, doubled often enough, 53 binary digits, or is twice the
least such number. -/
theorem exists_places {size : Nat} (hpos : 0 < size) (h : size ≤ 2 ^ 53) :
    ∃ places ≤ 52, binade ≤ size * 2 ^ places ∧ size * 2 ^ places ≤ 2 * binade := by
  rcases Nat.lt_or_eq_of_le h with hlt | rfl
  · have hlog : size.log2 < 53 := (Nat.log2_lt (Nat.ne_of_gt hpos)).2 hlt
    obtain ⟨places, hplaces⟩ := Nat.exists_eq_add_of_le (Nat.lt_succ_iff.1 hlog)
    have hdigits : 2 ^ size.log2 * 2 ^ places =
        binade := by rw [← Nat.pow_add, ← hplaces, binade, Nat.pow_eq]
    refine ⟨places, by omega, ?_, ?_⟩
    · rw [← hdigits]
      exact Nat.mul_le_mul_right _ (Nat.log2_self_le (Nat.ne_of_gt hpos))
    · rw [← hdigits, ← Nat.mul_assoc, ← Nat.pow_succ']
      exact Nat.mul_le_mul_right _ (Nat.le_of_lt Nat.lt_log2_self)
  · exact ⟨0, by decide, by decide, by decide⟩

theorem exists_units_eq {size : Nat} (h : size ≤ 2 ^ 53) :
    ∃ rank < rankCount, units rank = size * unitsPerOne := by
  rcases Nat.eq_zero_or_pos size with rfl | hpos
  · exact ⟨0, by decide, by rw [units_zero, Nat.zero_mul]⟩
  · obtain ⟨places, hplaces, hlow, hhigh⟩ := exists_places hpos h
    obtain ⟨doublings, hdoublings⟩ : ∃ doublings, unitPlaces = places + doublings :=
      Nat.exists_eq_add_of_le (hplaces.trans (by decide))
    obtain ⟨offset, hoffset⟩ := Nat.exists_eq_add_of_le hlow
    refine ⟨(doublings + 1) * binade + offset, ?_, ?_⟩
    · rw [unitPlaces] at hdoublings
      simp only [rankCount, binade_eq] at hlow hhigh hoffset ⊢
      omega
    · rw [units_add (by omega), ← hoffset, Nat.mul_assoc, ← Nat.pow_add, ← hdoublings,
        two_pow_unitPlaces]

theorem integerUnits_of_le (h : n.natAbs ≤ 2 ^ 53) : integerUnits n = n.natAbs * unitsPerOne := by
  obtain ⟨rank, hrank, hunits⟩ := exists_units_eq h
  exact Nat.le_antisymm (hunits ▸ integerUnits_le hunits.ge) (hunits ▸
    le_integerUnits (Nat.le_of_lt hrank) hunits.le)

/-- Integers up to `2 ^ 53` in size are values themselves. -/
theorem extent_ofInt_of_le (h : n.natAbs ≤ 2 ^ 53) : (ofInt n).extent = some (n * unitsPerOne) := by
  rw [extent_ofInt, integerUnits_of_le h, Nat.cast_mul]
  split_ifs with hsign
  · rw [← neg_mul, Int.ofNat_natAbs_of_nonpos (Int.le_of_lt hsign), Int.neg_neg]
  · rw [Int.natAbs_of_nonneg (Int.not_lt.1 hsign)]

theorem toRat?_ofInt_of_le (h : n.natAbs ≤ 2 ^ 53) : (ofInt n).toRat? = some (n : ℚ) := by
  rw [toRat?_of_extent (isFinite_ofInt (h.trans (by decide))) (extent_ofInt_of_le h),
    mul_unitsPerOne_div]

theorem order?_ofInt_of_le (h : n.natAbs ≤ 2 ^ 53) (hx : x.toRat? = some a) :
    order? (ofInt n) x = some (compare (n : ℚ) a) := by
  exact order?_eq_compare (toRat?_ofInt_of_le h) hx

end Binary64

end FieldRules

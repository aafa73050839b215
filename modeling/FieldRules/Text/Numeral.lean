import FieldRules.Text.Basic
import FieldRules.Text.Ascii

/-!
# Decimal numerals

* `Numeral.ofNat` and `Numeral.ofInt` write a number in decimal digits.
* `Numeral.value` is the number that a run of digits stands for.

Main statement: `value_ofNat`, a written number has its value.
-/

namespace FieldRules.Numeral

/-- The decimal digits of a natural number, the most significant first and without leading zeros. -/
def ofNat (n : Nat) : Bytes :=
  (Nat.toDigits 10 n).map Char.toUInt8

/-- The decimal digits of an integer, behind a minus sign if it is negative. -/
def ofInt : Int → Bytes
  | .ofNat n => ofNat n
  | .negSucc n => Ascii.minus :: ofNat (n + 1)

/-- The number that a digit stands for. -/
def digitValue (b : UInt8) : Nat :=
  b.toNat - Ascii.zero.toNat

/-- The number that a run of digits stands for; no digit at all stands for zero. -/
def value (digits : Bytes) : Nat :=
  digits.foldl (fun n b => 10 * n + digitValue b) 0

@[simp] theorem value_nil : value [] = 0 := rfl

@[simp] theorem value_append_singleton (digits : Bytes) (b : UInt8) :
    value (digits ++ [b]) = 10 * value digits + digitValue b := by
  simp [value]

/-- A digit below ten is written as the byte that stands for it. -/
theorem digitValue_digitChar : ∀ d < 10, digitValue (Nat.digitChar d).toUInt8 = d := by
  decide

theorem ofNat_of_lt {n : Nat} (h : n < 10) : ofNat n = [(Nat.digitChar n).toUInt8] := by
  rw [ofNat, Nat.toDigits_of_lt_base h]
  rfl

theorem ofNat_of_le {n : Nat} (h : 10 ≤ n) :
    ofNat n = ofNat (n / 10) ++ [(Nat.digitChar (n % 10)).toUInt8] := by
  simp [ofNat, Nat.toDigits_of_base_le (by decide) h]

/-- A written number has its value. -/
@[simp] theorem value_ofNat (n : Nat) : value (ofNat n) = n := by
  induction n using Nat.strongRecOn with
  | ind n ih =>
    by_cases h : n < 10
    · rw [ofNat_of_lt h, ← List.nil_append [_], value_append_singleton, digitValue_digitChar n h,
        value_nil]
      omega
    · rw [ofNat_of_le (by omega), value_append_singleton, ih (n / 10) (by omega),
        digitValue_digitChar _ (Nat.mod_lt n (by decide))]
      omega

theorem ofNat_ne_nil (n : Nat) : ofNat n ≠ [] := by
  simp [ofNat, Nat.toDigits_ne_nil]

end FieldRules.Numeral

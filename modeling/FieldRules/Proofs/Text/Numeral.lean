import FieldRules.Text.Numeral
import Mathlib.Data.List.Basic
import Mathlib.Data.List.Induction
import Mathlib.Tactic.Ring

/-!
# Runs of digits

* `IsDigits`: a run of digits, at least one.
* `value_append`, `value_zeros`: the value of a numeral from that of its parts.
* `isDigits_ofNat`, `head_ofNat_ne_zero`: a written number is a run of digits without leading zeros.
-/

namespace FieldRules.Numeral

/-- Holds of a run of digits, at least one. -/
structure IsDigits (s : Bytes) : Prop where
  ne_nil : s ≠ []
  isDigit : ∀ b ∈ s, Ascii.isDigit b = true

theorem IsDigits.append {s t : Bytes} (hs : IsDigits s) (ht : ∀ b ∈ t, Ascii.isDigit b = true) :
    IsDigits (s ++ t) where
  ne_nil := by simp [hs.ne_nil]
  isDigit := by
    intro b hb
    rcases List.mem_append.1 hb with h | h
    · exact hs.isDigit b h
    · exact ht b h

theorem isDigits_zero : IsDigits [Ascii.zero] :=
  ⟨List.cons_ne_nil _ _, List.forall_mem_singleton.2 (by decide)⟩

/-! ### Values -/

theorem value_append (s t : Bytes) : value (s ++ t) = value s * 10 ^ t.length + value t := by
  induction t using List.reverseRecOn with
  | nil => simp
  | append_singleton t b ih =>
    rw [← List.append_assoc, value_append_singleton, value_append_singleton, ih, List.length_append,
      List.length_singleton, Nat.pow_succ]
    ring

theorem value_zeros (count : Nat) : value (List.replicate count Ascii.zero) = 0 := by
  induction count with
  | zero => rfl
  | succ count ih =>
    rw [List.replicate_succ', value_append_singleton, ih]
    rfl

/-! ### Written numbers -/

theorem isDigit_digitChar : ∀ d < 10, Ascii.isDigit (Nat.digitChar d).toUInt8 = true := by
  decide

theorem digitChar_ne_zero : ∀ d < 10, 0 < d → (Nat.digitChar d).toUInt8 ≠ Ascii.zero := by
  decide

theorem isDigits_ofNat (n : Nat) : IsDigits (ofNat n) where
  ne_nil := ofNat_ne_nil n
  isDigit := by
    induction n using Nat.strongRecOn with
    | ind n ih =>
      intro b hb
      by_cases h : n < 10
      · rw [ofNat_of_lt h, List.mem_singleton] at hb
        rw [hb]
        exact isDigit_digitChar n h
      · rw [ofNat_of_le (by omega), List.mem_append, List.mem_singleton] at hb
        rcases hb with hb | rfl
        · exact ih (n / 10) (by omega) b hb
        · exact isDigit_digitChar _ (Nat.mod_lt n (by decide))

theorem head_ofNat_ne_zero {n : Nat} (hn : 0 < n) : (ofNat n).head? ≠ some Ascii.zero := by
  induction n using Nat.strongRecOn with
  | ind n ih =>
    by_cases h : n < 10
    · rw [ofNat_of_lt h, List.head?_cons]
      exact fun heq => digitChar_ne_zero n h hn (Option.some.inj heq)
    · rw [ofNat_of_le (by omega), List.head?_append_of_ne_nil _ (ofNat_ne_nil (n / 10))]
      exact ih (n / 10) (by omega) (by omega)

end FieldRules.Numeral

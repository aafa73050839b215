import FieldRules.Proofs.Binary64.Nearest
import FieldRules.Proofs.Json.NumberText
import FieldRules.Proofs.Json.Overflow
import FieldRules.Proofs.Rule.RoundTrip

/-!
# Integers as literals

* `NumberToken.rounded_eq_ofInt`: an integer token is rounded as the integer that it stands for.
* `Literal.ofText_token`: the literal that a number token stands for; `Literal.ofText_of_large`:
  that of a large integer.
* `KeepsInteger`: what a literal has to be for an integer of any size to be kept as well as it can
  be.
* `parse_keepsInteger`: the operand of a rule with a number for its literal.
-/

namespace FieldRules

/-! ### Tokens -/

namespace NumberToken

variable {token : NumberToken}

theorem natAbs_integerValue (token : NumberToken) :
    token.integerValue.natAbs = Numeral.value token.whole := by
  rw [integerValue]
  split_ifs <;> omega

/-- Unless it is zero, an integer token has the sign of the integer that it stands for. -/
theorem negative_eq_decide (hne : token.integerValue ≠ 0) :
    token.negative = decide (token.integerValue < 0) := by
  rw [integerValue] at hne ⊢
  cases hnegative : token.negative with
  | false =>
    rw [hnegative] at hne
    simp
  | true =>
    rw [hnegative] at hne
    rw [if_pos rfl] at hne ⊢
    exact (decide_eq_true (by omega)).symm

theorem rounded_eq_ofInt (h : token.isInteger = true) (hne : token.integerValue ≠ 0) :
    token.rounded = Binary64.ofInt token.integerValue := by
  rw [rounded, Binary64.ofDecimal_eq_ofRank, negative_eq_decide hne, Binary64.ofInt,
    Binary64.ofRatio, decimal_of_isInteger h, natAbs_integerValue]
  simp [Binary64.decimalRank]

/-- An integer of 64 bits is kept as an integer. -/
theorem isExact_of_range (h : token.isInteger = true) (hlow : -2 ^ 63 ≤ token.integerValue)
    (hhigh : token.integerValue ≤ 2 ^ 63 - 1) : token.isExact = true := by
  rw [isExact, h, Bool.true_and]
  rw [integerValue] at hlow hhigh
  rw [Nat.pow_eq, Nat.pow_eq]
  split_ifs at hlow hhigh ⊢ <;> rw [decide_eq_true_eq] <;> omega

end NumberToken

/-! ### Literals -/

/-- Holds of the literal as which an integer is kept, written as the given text. An integer of 64
bits is kept as it is. Any other is rounded to the nearest finite value, the one with an even rank
if there are two, as long as it lies below the midpoint behind the greatest of them; from there on
it is kept as it is written. -/
structure KeepsInteger (n : Int) (written : Bytes) (literal : Literal) : Prop where
  exact : -2 ^ 63 ≤ n → n ≤ 2 ^ 63 - 1 → ∃ k : Int64, literal = .integer k ∧ k.toInt = n
  rounded : n < -2 ^ 63 ∨ 2 ^ 63 - 1 < n → n.natAbs < 2 ^ 1024 - 2 ^ 970 →
    ∃ negative rank, literal = .double (.finite negative rank) ∧
      ∀ sign other, Binary64.IsNearest n sign other ↔ sign = negative ∧ other = rank
  verbatim : 2 ^ 1024 - 2 ^ 970 ≤ n.natAbs → literal = .string written

namespace Literal

variable {token : NumberToken}

theorem ofText_token (h : token.WellFormed) : ofText token.text =
    if token.isExact then ofInteger token.integerValue
    else if token.rounded.isFinite then .double token.rounded
    else .string token.text := by
  split_ifs with hexact hfinite
  · rw [ofText, Json.read_token h (NumberToken.value_of_isExact hexact)]
  · have hvalue : token.value = some (.double token.rounded) := by
      rw [NumberToken.value, if_neg hexact, if_pos hfinite]
    rw [ofText, Json.read_token h hvalue]
  · rw [ofText, Json.read_token_of_overflow h (by simpa using hfinite)]

/-- An integer beyond 64 bits is rounded, whether it is first read as an integer or not, if it
rounds to a finite value. -/
theorem ofText_of_large (h : token.WellFormed) (hinteger : token.isInteger = true)
    (hlarge : token.integerValue < -2 ^ 63 ∨ 2 ^ 63 - 1 < token.integerValue) : ofText token.text =
      if (Binary64.ofInt token.integerValue).isFinite then .double
        (Binary64.ofInt token.integerValue)
      else .string token.text := by
  have hrounded := NumberToken.rounded_eq_ofInt hinteger (by omega)
  rw [ofText_token h, hrounded]
  split_ifs with hexact hfinite hfinite
  · refine if_neg ?_
    change ¬ (-2 ^ 63 ≤ token.integerValue ∧ token.integerValue ≤ 2 ^ 63 - 1)
    omega
  · exact absurd (hrounded ▸ NumberToken.isFinite_rounded_of_isExact hexact) hfinite
  · rfl
  · rfl

/-- The text of an integer stands for the literal as which it is kept. -/
theorem keepsInteger_ofText (h : token.WellFormed) (hinteger : token.isInteger = true) :
    KeepsInteger token.integerValue token.text (ofText token.text) where
  exact := by
    intro hlow hhigh
    refine ⟨Int64.ofInt token.integerValue, ?_, Int64.toInt_ofInt_of_le hlow (by omega)⟩
    rw [ofText_token h, if_pos (NumberToken.isExact_of_range hinteger hlow hhigh)]
    exact if_pos ⟨hlow, hhigh⟩
  rounded := by
    intro hlarge hrange
    have hfinite := Binary64.isFinite_ofInt_iff.2 hrange
    obtain ⟨negative, rank, hvalue, hnearest⟩ := Binary64.exists_isNearest_ofInt hfinite
    refine ⟨negative, rank, ?_, fun sign other => ⟨hnearest.unique, ?_⟩⟩
    · rw [ofText_of_large h hinteger hlarge, if_pos hfinite, hvalue]
    · rintro ⟨rfl, rfl⟩
      exact hnearest
  verbatim := by
    intro hrange
    have hinfinite := mt Binary64.isFinite_ofInt_iff.1 (Nat.not_lt.2 hrange)
    have hmidpoint : 2 ^ 63 < 2 ^ 1024 - 2 ^ 970 := by decide +kernel
    rw [ofText_of_large h hinteger (by omega), if_neg hinfinite]

/-- A number with a fraction or an exponent is not kept as an integer. -/
theorem ofText_ne_integer (h : token.WellFormed) (hinteger : token.isInteger = false) (k : Int64) :
    ofText token.text ≠ .integer k := by
  rw [ofText_token h, NumberToken.isExact, hinteger, Bool.false_and, if_neg (by decide)]
  split_ifs <;> simp

end Literal

namespace Rule

/-- An integer on the right of a rule is kept exactly, or as the nearest binary64 number, or as it
is written, whatever number of digits it has. With a fraction or an exponent a number does not
become an integer, even if its value is one. -/
theorem parse_keepsInteger {parts : Parts} {text : Bytes} {token : NumberToken}
    (h : parts.WellFormed) (htext : parts.text = text.trim) (htoken : token.WellFormed)
    (hliteral : parts.literal = token.text) :
    ∃ operand, parse text = .ok ⟨parts.field, parts.operator, operand, text.trim⟩ ∧
      (token.isInteger = true → KeepsInteger token.integerValue token.text operand) ∧
      (token.isInteger = false → ∀ k, operand ≠ .integer k) := by
  refine ⟨.ofText token.text, ?_, Literal.keepsInteger_ofText htoken,
    Literal.ofText_ne_integer htoken⟩
  rw [h.parse_eq htext, hliteral]

/-- The negative zero is the integer zero; the first integer beyond 64 bits is rounded; a hundred
with an exponent is no integer. -/
theorem parse_keepsInteger_of_hard_literals :
    (∃ operand, parse (utf8 "a==-0") = .ok ⟨utf8 "a", .equal, operand, utf8 "a==-0"⟩ ∧
      KeepsInteger 0 (utf8 "-0") operand) ∧
    (∃ operand, parse (utf8 "a<9223372036854775808") =
        .ok ⟨utf8 "a", .less, operand, utf8 "a<9223372036854775808"⟩ ∧
      KeepsInteger (2 ^ 63) (utf8 "9223372036854775808") operand) ∧
    ∃ operand, parse (utf8 "a==1e2") = .ok ⟨utf8 "a", .equal, operand, utf8 "a==1e2"⟩ ∧
      ∀ k, operand ≠ .integer k := by
  have hfield : ∀ b ∈ utf8 "a", Ascii.isIdentifier b = true := List.all_eq_true.1 (by decide)
  obtain ⟨hzero, hzeroText⟩ := NumberToken.scan_eq_some_nil_iff.1
    (by decide : NumberToken.scan (utf8 "-0") = some (⟨true, utf8 "0", none, none⟩, []))
  obtain ⟨hlarge, hlargeText⟩ := NumberToken.scan_eq_some_nil_iff.1
    (by decide : NumberToken.scan (utf8 "9223372036854775808") =
      some (⟨false, utf8 "9223372036854775808", none, none⟩, []))
  obtain ⟨hhundred, hhundredText⟩ := NumberToken.scan_eq_some_nil_iff.1
    (by decide : NumberToken.scan (utf8 "1e2") =
      some (⟨false, utf8 "1", none, some ⟨Ascii.lowerE, [], utf8 "2"⟩⟩, []))
  have hparts (operator : Operator) {token : NumberToken} {literal : Bytes}
      (htoken : token.WellFormed) (htext : token.text = literal) :
      (⟨utf8 "a", [], operator, [], literal⟩ : Parts).WellFormed :=
    Parts.wellFormed_of_upright operator (by decide) hfield (htext ▸ htoken.upright)
  refine ⟨?_, ?_, ?_⟩
  · obtain ⟨operand, hparse, hinteger, -⟩ := parse_keepsInteger (hparts .equal hzero hzeroText)
      (by decide : _ = (utf8 "a==-0").trim) hzero hzeroText.symm
    exact ⟨operand, hparse, hinteger rfl⟩
  · obtain ⟨operand, hparse, hinteger, -⟩ := parse_keepsInteger (hparts .less hlarge hlargeText)
      (by decide : _ = (utf8 "a<9223372036854775808").trim) hlarge hlargeText.symm
    exact ⟨operand, hparse, hinteger rfl⟩
  · obtain ⟨operand, hparse, -, hother⟩ := parse_keepsInteger (hparts .equal hhundred hhundredText)
      (by decide : _ = (utf8 "a==1e2").trim) hhundred hhundredText.symm
    exact ⟨operand, hparse, hother rfl⟩

end Rule

end FieldRules

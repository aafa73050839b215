import FieldRules.Proofs.Json.NumberText
import FieldRules.Proofs.Json.Readable
import FieldRules.Proofs.Text.Trim
import FieldRules.Rule.Parser

/-!
# Literals read back

* `Literal.isScalar`: the literals that are no strings and have a text of their own: integers,
  booleans and finite numbers.
* `ofText_cases`: a text stands for such a literal, or else for itself.
* `ofText_text`: such a literal is what its text stands for.
* `Upright`: the texts that a rule can have behind its operator without a gap, which `upright_text`
  shows of the texts of all these literals.
-/

namespace FieldRules

open Numeral Bytes

/-! ### Texts that stand behind an operator -/

/-- Holds of a text, not empty, that has no white space at its ends and does not begin with a byte
of an operator. -/
structure Upright (text : Bytes) : Prop where
  ne_nil : text ≠ []
  trimmed : Trimmed text
  stops_isOperator : Stops Ascii.isOperator text

theorem isSpace_of_isDigit {b : UInt8} (h : Ascii.isDigit b = true) : Ascii.isSpace b = false := by
  simp only [Ascii.isDigit, Ascii.isSpace] at h ⊢
  grind

theorem isOperator_of_isDigit {b : UInt8} (h : Ascii.isDigit b = true) :
    Ascii.isOperator b = false := by
  simp only [Ascii.isDigit, Ascii.isOperator] at h ⊢
  grind

/-- A run of digits does not end with white space. -/
theorem stops_reverse_of_isDigits {digits : Bytes} (h : IsDigits digits) :
    Stops Ascii.isSpace digits.reverse := by
  intro b hb
  exact isSpace_of_isDigit (h.isDigit b (List.mem_reverse.1 (List.mem_of_mem_head? hb)))

namespace NumberToken

/-- A byte that numbers begin with is no white space and belongs to no operator. -/
theorem Starts.not_isSpace {b : UInt8} (h : Starts b) :
    Ascii.isSpace b = false ∧ Ascii.isOperator b = false := by
  rcases h with hdigit | rfl
  · exact ⟨isSpace_of_isDigit hdigit, isOperator_of_isDigit hdigit⟩
  · exact ⟨by decide, by decide⟩

theorem WellFormed.exists_digits {token : NumberToken} (h : token.WellFormed) :
    ∃ front digits, token.text = front ++ digits ∧ IsDigits digits := by
  obtain ⟨negative, whole, fraction, exponent⟩ := token
  cases exponent with
  | some part =>
    refine ⟨(if negative then [Ascii.minus] else []) ++ whole ++
      fraction.elim [] (Ascii.dot :: ·) ++
      part.marker :: part.sign, part.digits, ?_, (h.exponent part rfl).digits⟩
    simp [text, ExponentPart.text]
  | none =>
    cases fraction with
    | some digits =>
      refine ⟨(if negative then [Ascii.minus] else []) ++ whole ++ [Ascii.dot], digits, ?_,
        h.fraction digits rfl⟩
      simp [text]
    | none =>
      refine ⟨if negative then [Ascii.minus] else [], whole, ?_, h.whole⟩
      simp [text]

/-- A token stands behind an operator: it begins with a digit or a minus sign and ends with a
digit. -/
theorem WellFormed.upright {token : NumberToken} (h : token.WellFormed) : Upright token.text := by
  obtain ⟨b, rest, htext, hb⟩ := h.exists_starts
  obtain ⟨hspace, hoperator⟩ := hb.not_isSpace
  refine ⟨by simp [htext], ⟨?_, ?_⟩, ?_⟩
  · rw [htext]
    exact stops_cons.2 hspace
  · obtain ⟨front, digits, hfront, hdigits⟩ := h.exists_digits
    rw [hfront]
    exact stops_reverse_append hdigits.ne_nil (stops_reverse_of_isDigits hdigits)
  · rw [htext]
    exact stops_cons.2 hoperator

end NumberToken

namespace Literal

/-- Holds of integers, booleans and finite numbers. -/
def isScalar : Literal → Bool
  | .integer _ => true
  | .double x => x.isFinite
  | .bool _ => true
  | .string _ => false

/-- An integer that is read stands for itself or for the finite number nearest to it. -/
theorem isScalar_ofInteger {n : Int} (hlow : -2 ^ 63 ≤ n) (hhigh : n < 2 ^ 64) :
    (ofInteger n).isScalar = true := by
  unfold ofInteger
  split_ifs
  · rfl
  · exact Binary64.isFinite_ofInt (by omega)

/-- A text stands for an integer, a boolean or a finite number, or else for itself. -/
theorem ofText_cases (text : Bytes) :
    (ofText text).isScalar = true ∨ ofText text = .string text := by
  unfold ofText
  split
  · next n hread =>
    cases Json.readable_of_read hread with
    | integer hlow hhigh => exact Or.inl (isScalar_ofInteger hlow hhigh)
  · next x hread =>
    cases Json.readable_of_read hread with
    | double negative rank => exact Or.inl rfl
  · exact Or.inl rfl
  · exact Or.inr rfl

/-- The text of an integer, a boolean or a finite number stands for it. -/
theorem ofText_text {literal : Literal} (h : literal.isScalar = true) :
    ofText literal.text = literal := by
  cases literal with
  | integer n =>
    have hlow := Int64.le_toInt n
    have hhigh := Int64.toInt_lt n
    have hread : Json.read (ofInt n.toInt) = .ok (.integer n.toInt) :=
      Json.read_ofInt hlow (by omega)
    rw [text, ofText, hread]
    show ofInteger n.toInt = .integer n
    rw [ofInteger, if_pos ⟨n.minValue_le_toInt, n.toInt_le⟩, Int64.ofInt_toInt]
  | double x =>
    cases x with
    | finite negative rank =>
      have hread : Json.read (Layout.literal.finite Binary64.shortest negative rank) =
          .ok (.double (.finite negative rank)) :=
        Json.read_finite _ Binary64.readsBack_shortest ..
      rw [text, Binary64.literalText, ofText, hread]
    | infinite _ => cases h
    | nan => cases h
  | bool b => cases b <;> decide
  | string s => cases h

theorem upright_text {literal : Literal} (h : literal.isScalar = true) : Upright literal.text := by
  cases literal with
  | integer n =>
    rw [text, ← Json.text_integerToken]
    exact (Json.wellFormed_integerToken n.toInt).upright
  | double x =>
    cases x with
    | finite negative rank =>
      obtain ⟨token, hwellFormed, htext, -⟩ :=
        Layout.literal.exists_token_finite Binary64.readsBack_shortest negative rank
      rw [text, Binary64.literalText, ← htext]
      exact hwellFormed.upright
    | infinite _ => cases h
    | nan => cases h
  | bool b => cases b <;> exact ⟨by decide, ⟨by decide, by decide⟩, by decide⟩
  | string s => cases h

theorem sameNumber_self {x : Binary64} {a : Int} (hx : x.extent = some a) :
    x.sameNumber x = true := by
  rw [Binary64.sameNumber, Binary64.order?_eq_some hx hx, compare_eq_iff_eq.2 rfl]
  rfl

theorem sameValue_self {literal : Literal} (h : literal ≠ .double .nan) :
    literal.sameValue literal = true := by
  cases literal with
  | integer n => exact beq_self_eq_true n
  | double x =>
    cases x with
    | finite negative rank => exact sameNumber_self (Binary64.extent_finite negative rank)
    | infinite negative => exact sameNumber_self rfl
    | nan => exact absurd rfl h
  | bool b => exact beq_self_eq_true b
  | string s => exact beq_self_eq_true s

end Literal

end FieldRules

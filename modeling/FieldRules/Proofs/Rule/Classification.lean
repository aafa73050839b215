import FieldRules.Proofs.Rule.Grammar
import Mathlib.Order.Bounds.Basic

/-!
# Why rules are refused

A text that is no rule is refused for the first thing that it lacks: a field, an operator or a
literal. Each of these can be told from the text alone.

* `Operator.IsLongest`, `atStart?_eq_some_iff`: the longest operator that a text begins with.
* `Rule.fieldOf`, `Rule.IsOperatorPlace`: the field of a text, and the place where its operator has
  to be.
* `LacksField`, `LacksOperator`, `LacksLiteral`: the three classes of texts that are refused.
* `ofTrimmed_cases`: a text is in the first of these classes that it is refused for, or is a rule
  and in none.
* `parse_classified`: the class of every error, with what its reason names.
-/

namespace FieldRules

open Bytes

/-! ### The longest operator -/

namespace Operator

variable {operator other : Operator} {text rest : Bytes}

/-- Holds of an operator that a text begins with, if the text begins with no longer one. -/
structure IsLongest (operator : Operator) (text : Bytes) : Prop where
  isPrefix : operator.token <+: text
  longest : ∀ other : Operator, other.token <+: text → other.token.length ≤ operator.token.length

theorem token_injective (h : operator.token = other.token) : operator = other := by
  revert h
  cases operator <;> cases other <;> decide

theorem atStart?_eq_none_iff :
    atStart? text = none ↔ ∀ operator : Operator, ¬ operator.token <+: text := by
  rw [atStart?, List.find?_eq_none]
  constructor
  · intro h operator hprefix
    exact h operator (mem_all operator) (List.isPrefixOf_iff_prefix.2 hprefix)
  · intro h operator _ hprefix
    exact h operator (List.isPrefixOf_iff_prefix.1 hprefix)

/-- Only an operator of one byte can go on. -/
theorem mayPrecede_of_length (h : 1 < operator.token.length) (rest : Bytes) :
    operator.MayPrecede rest := by
  rintro (rfl | rfl) <;> simp [token_eq] at h

/-- An operator that is left as it is by what follows has no longer one in its place. -/
theorem isLongest_append (h : operator.MayPrecede rest) :
    operator.IsLongest (operator.token ++ rest) where
  isPrefix := List.prefix_append ..
  longest other hother := by
    obtain ⟨tail, htail⟩ := hother
    obtain ⟨b, more, htoken, -⟩ := operator.exists_token_cons
    by_contra hlonger
    have hlength : 1 < other.token.length := by
      rw [htoken, List.length_cons] at hlonger
      omega
    obtain ⟨rfl, -⟩ := append_inj_of_mayPrecede (mayPrecede_of_length hlength tail) h htail
    exact hlonger (Nat.le_refl _)

theorem IsLongest.unique (h : operator.IsLongest text) (hother : other.IsLongest text) :
    operator = other := by
  have hlength : operator.token.length = other.token.length :=
    Nat.le_antisymm (hother.longest operator h.isPrefix) (h.longest other hother.isPrefix)
  exact token_injective (List.IsPrefix.eq_of_length
    (List.prefix_of_prefix_length_le h.isPrefix hother.isPrefix
    hlength.le) hlength)

theorem atStart?_eq_some_iff : atStart? text = some operator ↔ operator.IsLongest text := by
  have hfound {found : Operator} (h : atStart? text = some found) : found.IsLongest text := by
    obtain ⟨rest, rfl, hrest⟩ := exists_of_atStart? h
    exact isLongest_append hrest
  constructor
  · exact hfound
  · intro h
    cases hfind : atStart? text with
    | none => exact absurd h.isPrefix (atStart?_eq_none_iff.1 hfind operator)
    | some found => rw [h.unique (hfound hfind)]

end Operator

namespace Rule

variable {text : Bytes}

/-! ### The place of the operator -/

/-- The field that a text begins with: all letters, digits and underscores there are. -/
def fieldOf (text : Bytes) : Bytes :=
  text.takeWhile Ascii.isIdentifier

/-- Holds of the place of the first byte behind the field that is not white space. -/
def IsOperatorPlace (text : Bytes) (place : Nat) : Prop :=
  IsLeast {i | (fieldOf text).length ≤ i ∧ ∃ b, text[i]? = some b ∧ Ascii.isSpace b = false} place

/-- What is behind the field and the white space that follows it. -/
def behindField (text : Bytes) : Bytes :=
  (text.dropWhile Ascii.isIdentifier).dropWhile Ascii.isSpace

theorem stops_behindField (text : Bytes) : Stops Ascii.isSpace (behindField text) :=
  stops_dropWhile _ _

theorem exists_gap_behindField (text : Bytes) :
    ∃ gap, IsGap gap ∧ text = fieldOf text ++ (gap ++ behindField text) := by
  obtain ⟨gap, hgap, hrest⟩ := exists_gap (text.dropWhile Ascii.isIdentifier)
  refine ⟨gap, hgap, ?_⟩
  rw [behindField, ← trimStart, ← hrest, fieldOf, List.takeWhile_append_dropWhile]

/-- What is no white space behind the field is behind the gap as well. -/
theorem le_of_not_isSpace {gap : Bytes} (hgap : IsGap gap)
    (htext : text = fieldOf text ++ (gap ++ behindField text)) {i : Nat}
    (hi : (fieldOf text).length ≤ i) {b : UInt8} (hb : text[i]? = some b)
    (hspace : Ascii.isSpace b = false) :
    (fieldOf text).length + gap.length ≤ i := by
  by_contra hlt
  rw [htext, List.getElem?_append_right hi, List.getElem?_append_left (by omega)] at hb
  rw [hgap b (List.mem_of_getElem? hb)] at hspace
  cases hspace

theorem getElem?_behindField {gap : Bytes}
    (htext : text = fieldOf text ++ (gap ++ behindField text)) :
    text[(fieldOf text).length + gap.length]? = (behindField text).head? := by
  have hdrop : (fieldOf text ++ gap ++ behindField text).drop (fieldOf text ++ gap).length =
      behindField text :=
    List.drop_left
  rw [List.append_assoc, ← htext, List.length_append] at hdrop
  rw [← List.head?_drop, hdrop]

/-- The place of the operator is where the text behind field and white space begins. -/
theorem isOperatorPlace_iff {place : Nat} :
    IsOperatorPlace text place ↔ behindField text ≠ [] ∧
      place = text.length - (behindField text).length := by
  obtain ⟨gap, hgap, htext⟩ := exists_gap_behindField text
  have hlength :
      text.length = (fieldOf text).length + (gap.length + (behindField text).length) := by
    conv_lhs => rw [htext]
    simp
  have hstart :
      text.length - (behindField text).length = (fieldOf text).length + gap.length := by omega
  have hbyte := getElem?_behindField htext
  rw [hstart]
  cases hrest : behindField text with
  | nil =>
    -- every byte behind the field is white space
    simp only [ne_eq, not_true_eq_false, false_and, iff_false]
    rintro ⟨⟨hi, b, hb, hspace⟩, -⟩
    have hle := le_of_not_isSpace hgap htext hi hb hspace
    have hlt := (List.getElem?_eq_some_iff.1 hb).1
    rw [hlength, hrest, List.length_nil] at hlt
    omega
  | cons b tail =>
    have hspace : Ascii.isSpace b = false := stops_cons.1 (hrest ▸ stops_behindField text)
    have hleast : IsOperatorPlace text ((fieldOf text).length + gap.length) :=
      ⟨⟨Nat.le_add_right .., b, by rw [hbyte, hrest]; rfl, hspace⟩,
        fun i ⟨hi, c, hc, hnot⟩ => le_of_not_isSpace hgap htext hi hc hnot⟩
    constructor
    · exact fun h => ⟨List.cons_ne_nil b tail, h.unique hleast⟩
    · rintro ⟨-, rfl⟩
      exact hleast

theorem drop_operatorPlace (text : Bytes) :
    text.drop (text.length - (behindField text).length) = behindField text := by
  obtain ⟨gap, -, htext⟩ := exists_gap_behindField text
  have hsuffix : behindField text <:+ text :=
    ⟨fieldOf text ++ gap, by rw [List.append_assoc, ← htext]⟩
  exact (List.suffix_iff_eq_drop.1 hsuffix).symm

theorem exists_operatorPlace_iff {P : Nat → Prop} :
    (∃ place, IsOperatorPlace text place ∧ P place) ↔
      behindField text ≠ [] ∧ P (text.length - (behindField text).length) := by
  simp only [isOperatorPlace_iff]
  constructor
  · rintro ⟨_, ⟨hne, rfl⟩, h⟩
    exact ⟨hne, h⟩
  · rintro ⟨hne, h⟩
    exact ⟨_, ⟨hne, rfl⟩, h⟩

/-! ### Classes of refused texts -/

/-- Holds of a text that white space separates from an operator byte. -/
def IsSeparated (after : Bytes) : Prop :=
  ∃ gap b tail, after = gap ++ b :: tail ∧ gap ≠ [] ∧ IsGap gap ∧ Ascii.isOperator b = true

/-- Holds of a text without a proper field: it is empty, begins with no field at all, or goes on
behind the field with something that is no operator byte. -/
def LacksField (text : Bytes) : Prop :=
  text = [] ∨ (∃ place, IsOperatorPlace text place ∧ ∃ b, text[place]? = some b ∧
    Ascii.isOperator b = false) ∨
    fieldOf text = []

/-- Holds of a text without a proper operator: it ends with the field, has no operator in the place
of one, or white space and another operator byte behind the operator. -/
def LacksOperator (text : Bytes) : Prop :=
  (∀ place, ¬ IsOperatorPlace text place) ∨
    (∃ place, IsOperatorPlace text place ∧ ∀ operator : Operator,
      ¬ operator.token <+: text.drop place) ∨
    ∃ place, IsOperatorPlace text place ∧ ∃ operator : Operator,
      operator.IsLongest (text.drop place) ∧
      ∃ after, text.drop place = operator.token ++ after ∧ IsSeparated after

/-- Holds of a text that ends with its operator. -/
def LacksLiteral (text : Bytes) : Prop :=
  ∃ place, IsOperatorPlace text place ∧ ∃ operator : Operator,
    operator.IsLongest (text.drop place) ∧
    text.drop place = operator.token

theorem lacksField_iff : LacksField text ↔
    text = [] ∨ (∃ b tail, behindField text = b :: tail ∧ Ascii.isOperator b = false) ∨
      fieldOf text = [] := by
  rw [LacksField, exists_operatorPlace_iff, ← List.head?_drop, drop_operatorPlace]
  cases behindField text <;> simp

theorem lacksOperator_iff : LacksOperator text ↔
    Operator.atStart? (behindField text) = none ∨
      ∃ operator after, Operator.atStart? (behindField text) = some operator ∧
        behindField text = operator.token ++ after ∧ IsSeparated after := by
  have hnone : (∀ place, ¬ IsOperatorPlace text place) ↔ behindField text = [] := by
    simp [isOperatorPlace_iff]
  rw [LacksOperator, hnone, exists_operatorPlace_iff, exists_operatorPlace_iff, drop_operatorPlace,
    ← Operator.atStart?_eq_none_iff]
  simp only [← Operator.atStart?_eq_some_iff]
  cases behindField text with
  | nil => simp [show Operator.atStart? [] = none from rfl]
  | cons b tail => simp

theorem lacksLiteral_iff : LacksLiteral text ↔
    ∃ operator, Operator.atStart? (behindField text) = some operator ∧
      behindField text = operator.token := by
  rw [LacksLiteral, exists_operatorPlace_iff, drop_operatorPlace]
  simp only [← Operator.atStart?_eq_some_iff]
  cases behindField text with
  | nil => simp [show Operator.atStart? [] = none from rfl]
  | cons b tail => simp

section Behind

variable {operator : Operator} {after : Bytes}

/-- Where there is an operator, all depends on what follows it. -/
theorem lacksOperator_iff_isSeparated
    (hoperator : Operator.atStart? (behindField text) = some operator)
    (hafter : behindField text = operator.token ++ after) :
    LacksOperator text ↔ IsSeparated after := by
  rw [lacksOperator_iff, hoperator]
  constructor
  · rintro (hnone | ⟨_, other, ⟨⟩, hother, hseparated⟩)
    · cases hnone
    · rwa [List.append_cancel_left (hafter.symm.trans hother)]
  · exact fun h => Or.inr ⟨operator, after, rfl, hafter, h⟩

theorem lacksLiteral_iff_eq_nil (hoperator : Operator.atStart? (behindField text) = some operator)
    (hafter : behindField text = operator.token ++ after) : LacksLiteral text ↔ after = [] := by
  rw [lacksLiteral_iff, hoperator, hafter]
  simp

theorem not_lacksLiteral (h : Operator.atStart? (behindField text) = none) :
    ¬ LacksLiteral text := by
  rw [lacksLiteral_iff, h]
  simp

end Behind

/-! ### Reading -/

section Exits

variable {b : UInt8} {tail : Bytes}

theorem ofTrimmed_of_nil (h : behindField text = []) :
    ofTrimmed text = .error (if (fieldOf text).isEmpty then .emptyExpression else
      .missingOperator) := by
  unfold ofTrimmed
  rw [← behindField, h, fieldOf]

theorem ofTrimmed_of_not_isOperator (h : behindField text = b :: tail)
    (hb : Ascii.isOperator b = false) :
    ofTrimmed text = .error (.unexpectedByte b (text.length - (behindField text).length)) := by
  unfold ofTrimmed
  rw [← behindField, h]
  simp [hb]

theorem ofTrimmed_of_no_field (h : behindField text = b :: tail) (hb : Ascii.isOperator b = true)
    (hfield : fieldOf text = []) : ofTrimmed text = .error .missingField := by
  unfold ofTrimmed
  rw [← behindField, h, ← fieldOf, hfield]
  simp [hb]

theorem ofTrimmed_of_no_operator (h : behindField text = b :: tail) (hb : Ascii.isOperator b = true)
    (hfield : fieldOf text ≠ []) (hoperator : Operator.atStart? (behindField text) = none) :
    ofTrimmed text = .error (.unknownOperator ((behindField text).takeWhile Ascii.isOperator)) := by
  rw [h] at hoperator
  unfold ofTrimmed
  rw [← behindField, h, ← fieldOf]
  simp [hb, hfield, hoperator]

theorem ofTrimmed_of_operator {operator : Operator} {after : Bytes}
    (h : behindField text = operator.token ++ after) (hfield : fieldOf text ≠ [])
    (hoperator : Operator.atStart? (behindField text) = some operator) :
    ofTrimmed text = (parseOperand operator after).map fun operand =>
      ⟨fieldOf text, operator, operand, text⟩ := by
  obtain ⟨b, more, htoken, hb⟩ := operator.exists_token_cons
  have hdrop : (operator.token ++ after).drop operator.token.length = after := List.drop_left
  rw [h, htoken, List.cons_append] at hoperator
  rw [htoken, List.cons_append] at hdrop h
  unfold ofTrimmed
  rw [← behindField, h, ← fieldOf]
  have hempty : (fieldOf text).isEmpty = false := by simpa using hfield
  simp only [hb, hempty, hoperator, htoken, hdrop]
  cases parseOperand operator after <;> rfl

end Exits

/-- A text is separated from its first byte that is no white space if there is some in front of that
byte. -/
theorem isSeparated_append_iff {gap rest : Bytes} {first : UInt8} (hgap : IsGap gap)
    (hfirst : Ascii.isSpace first = false) :
    IsSeparated (gap ++ first :: rest) ↔ gap ≠ [] ∧ Ascii.isOperator first = true := by
  constructor
  · rintro ⟨other, b, tail, hsplit, hne, hother, hb⟩
    obtain ⟨rfl, hrest⟩ := append_inj_of_stops hgap hother (stops_cons.2 hfirst)
      (stops_cons.2 (Ascii.not_isSpace_of_isOperator hb)) hsplit
    cases hrest
    exact ⟨hne, hb⟩
  · rintro ⟨hne, hb⟩
    exact ⟨gap, first, rest, rfl, hne, hgap, hb⟩

/-- What follows the operator lacks a literal, is separated from an operator byte, or is an
operand. -/
theorem parseOperand_cases (operator : Operator) {after : Bytes}
    (hfinish : Stops Ascii.isSpace after.reverse) :
    (after = [] ∧ parseOperand operator after = .error (.missingOperand operator)) ∨
    (IsSeparated after ∧ ∃ b,
      parseOperand operator after = .error (.separatedOperator operator b)) ∨
    after ≠ [] ∧ ¬ IsSeparated after ∧ ∃ operand, parseOperand operator after = .ok operand := by
  obtain ⟨gap, hgap, hafter⟩ := exists_gap after
  cases hliteral : trimStart after with
  | nil =>
    -- white space alone is not what a trimmed text ends with
    rw [hliteral, List.append_nil] at hafter
    obtain rfl : after = [] :=
      List.reverse_eq_nil_iff.1 (hfinish.eq_nil (isGap_reverse (hafter ▸ hgap)))
    exact Or.inl ⟨rfl, rfl⟩
  | cons first rest =>
    have hfirst : Ascii.isSpace first = false := by
      have hstops : Stops Ascii.isSpace (trimStart after) := stops_dropWhile _ _
      rwa [hliteral, stops_cons] at hstops
    have htrim : after.trim = first :: rest := (trim_of_stops_reverse hfinish).trans hliteral
    rw [hliteral] at hafter
    have hne : after ≠ [] := by simp [hafter]
    have hseparated : IsSeparated after ↔ gap ≠ [] ∧ Ascii.isOperator first = true := by
      rw [hafter]
      exact isSeparated_append_iff hgap hfirst
    rw [hseparated, parseOperand, htrim]
    cases gap with
    | nil => simp [hafter, hfirst]
    | cons next gap =>
      have hnext : Ascii.isSpace next = true := hgap next (List.mem_cons_self ..)
      cases hb : Ascii.isOperator first <;> simp [hafter, hnext, hb]

theorem not_isSeparated_nil : ¬ IsSeparated [] := by
  rintro ⟨gap, b, tail, hsplit, -⟩
  simp at hsplit

/-- A text without a proper field is refused for that, whatever else it lacks. -/
theorem ofTrimmed_of_lacksField (h : LacksField text) :
    ∃ fault, ofTrimmed text = .error fault ∧
      (ParseFault.rule fault).kind = .malformedIdentifier := by
  rcases lacksField_iff.1 h with rfl | ⟨b, tail, hrest, hb⟩ | hfield
  · exact ⟨_, rfl, rfl⟩
  · exact ⟨_, ofTrimmed_of_not_isOperator hrest hb, rfl⟩
  · cases hrest : behindField text with
    | nil => exact ⟨_, ofTrimmed_of_nil hrest, by rw [hfield]; rfl⟩
    | cons b tail =>
      cases hb : Ascii.isOperator b with
      | false => exact ⟨_, ofTrimmed_of_not_isOperator hrest hb, rfl⟩
      | true => exact ⟨_, ofTrimmed_of_no_field hrest hb hfield, rfl⟩

theorem fieldOf_ne_nil (h : ¬ LacksField text) : fieldOf text ≠ [] := by
  rw [lacksField_iff] at h
  exact fun hfield => h (Or.inr (Or.inr hfield))

/-- Behind a proper field is nothing, or an operator byte. -/
theorem isOperator_of_not_lacksField (h : ¬ LacksField text) {b : UInt8} {tail : Bytes}
    (hrest : behindField text = b :: tail) : Ascii.isOperator b = true := by
  by_contra hb
  exact h (lacksField_iff.2 (Or.inr (Or.inl ⟨b, tail, hrest, by simpa using hb⟩)))

theorem ofTrimmed_of_no_longest (h : ¬ LacksField text)
    (hoperator : Operator.atStart? (behindField text) = none) :
    ofTrimmed text = .error (if (behindField text).isEmpty then .missingOperator
      else .unknownOperator ((behindField text).takeWhile Ascii.isOperator)) := by
  have hfield := fieldOf_ne_nil h
  cases hrest : behindField text with
  | nil => simp [ofTrimmed_of_nil hrest, hfield]
  | cons b tail =>
    rw [ofTrimmed_of_no_operator hrest (isOperator_of_not_lacksField h hrest) hfield hoperator,
      hrest]
    rfl

/-- A trimmed text that is no rule lacks a field, or has one and lacks an operator, or has both and
lacks a literal. A rule lacks none of them. -/
theorem ofTrimmed_cases (h : Trimmed text) :
    (LacksField text ∧ ∃ fault, ofTrimmed text = .error fault ∧
      (ParseFault.rule fault).kind = .malformedIdentifier) ∨
    (¬ LacksField text ∧ LacksOperator text ∧ ¬ LacksLiteral text ∧
      ∃ fault, ofTrimmed text = .error fault ∧
        (ParseFault.rule fault).kind = .unrecognizedOperator) ∨
    (¬ LacksField text ∧ ¬ LacksOperator text ∧ LacksLiteral text ∧
      ∃ fault, ofTrimmed text = .error fault ∧ (ParseFault.rule fault).kind = .emptyLiteral) ∨
    ¬ LacksField text ∧ ¬ LacksOperator text ∧ ¬ LacksLiteral text ∧ ∃ rule,
      ofTrimmed text = .ok rule := by
  by_cases hlacks : LacksField text
  · exact Or.inl ⟨hlacks, ofTrimmed_of_lacksField hlacks⟩
  refine Or.inr ?_
  simp only [hlacks, not_false_eq_true, true_and]
  cases hoperator : Operator.atStart? (behindField text) with
  | none =>
    refine Or.inl ⟨lacksOperator_iff.2 (Or.inl hoperator), not_lacksLiteral hoperator, _,
      ofTrimmed_of_no_longest hlacks hoperator, ?_⟩
    split_ifs <;> rfl
  | some operator =>
    obtain ⟨after, hafter, -⟩ := Operator.exists_of_atStart? hoperator
    have hfinish : Stops Ascii.isSpace after.reverse := by
      obtain ⟨gap, -, htext⟩ := exists_gap_behindField text
      have hend := h.finish
      rw [htext, hafter] at hend
      exact stops_reverse_of_append (stops_reverse_of_append (stops_reverse_of_append hend))
    rw [ofTrimmed_of_operator hafter (fieldOf_ne_nil hlacks) hoperator,
      lacksOperator_iff_isSeparated hoperator hafter,
      lacksLiteral_iff_eq_nil hoperator hafter]
    rcases parseOperand_cases operator hfinish with ⟨rfl, hread⟩ | ⟨hseparated, b, hread⟩ |
        ⟨hne, hnot, operand, hread⟩
    · exact Or.inr (Or.inl ⟨not_isSeparated_nil, rfl, _, by rw [hread]; rfl, rfl⟩)
    · have hne : after ≠ [] := by
        rintro rfl
        exact not_isSeparated_nil hseparated
      exact Or.inl ⟨hseparated, hne, _, by rw [hread]; rfl, rfl⟩
    · exact Or.inr (Or.inr ⟨hnot, hne, _, by rw [hread]; rfl⟩)

theorem exists_error_ofTrimmed_iff (h : Trimmed text) :
    (∃ fault, ofTrimmed text = .error fault) ↔ LacksField text ∨ LacksOperator text ∨
      LacksLiteral text := by
  rcases ofTrimmed_cases h with ⟨hfield, fault, hfault, -⟩ | ⟨-, hoperator, -, fault, hfault, -⟩ |
    ⟨-, -, hliteral, fault, hfault, -⟩ | ⟨hfield, hoperator, hliteral, rule, hrule⟩
  · exact iff_of_true ⟨fault, hfault⟩ (Or.inl hfield)
  · exact iff_of_true ⟨fault, hfault⟩ (Or.inr (Or.inl hoperator))
  · exact iff_of_true ⟨fault, hfault⟩ (Or.inr (Or.inr hliteral))
  · rw [hrule]
    simp [hfield, hoperator, hliteral]

/-- The class of a fault is that of the first part that is lacking. -/
theorem kind_of_ofTrimmed (h : Trimmed text) {fault : RuleFault}
    (hfault : ofTrimmed text = .error fault) :
    ((ParseFault.rule fault).kind = .malformedIdentifier ↔ LacksField text) ∧
    ((ParseFault.rule fault).kind = .unrecognizedOperator ↔ ¬ LacksField text ∧
      LacksOperator text) ∧
    ((ParseFault.rule fault).kind = .emptyLiteral ↔ ¬ LacksField text ∧ ¬ LacksOperator text) ∧
    (¬ LacksField text → ((ParseFault.rule fault).kind = .emptyLiteral ↔ LacksLiteral text)) := by
  rcases ofTrimmed_cases h with ⟨hfield, found, hfound, hkind⟩ |
      ⟨hfield, hoperator, hliteral, found, hfound, hkind⟩ |
    ⟨hfield, hoperator, hliteral, found, hfound, hkind⟩ | ⟨-, -, -, rule, hrule⟩
  · cases hfault.symm.trans hfound
    simp [hkind, hfield]
  · cases hfault.symm.trans hfound
    simp [hkind, hfield, hoperator, hliteral]
  · cases hfault.symm.trans hfound
    simp [hkind, hfield, hoperator, hliteral]
  · cases hfault.symm.trans hrule

/-- A byte that is no operator byte in the place of the operator is the fault. -/
theorem ofTrimmed_of_byte_at {place : Nat} {b : UInt8} (hplace : IsOperatorPlace text place)
    (hget : text[place]? = some b) (hb : Ascii.isOperator b = false) :
    ofTrimmed text = .error (.unexpectedByte b place) := by
  obtain ⟨-, rfl⟩ := isOperatorPlace_iff.1 hplace
  rw [← List.head?_drop, drop_operatorPlace] at hget
  obtain ⟨tail, hrest⟩ := List.head?_eq_some_iff.1 hget
  exact ofTrimmed_of_not_isOperator hrest hb

/-- Operator bytes in the place of the operator that begin with no operator are the fault. -/
theorem ofTrimmed_of_run_at {place : Nat} (h : ¬ LacksField text)
    (hplace : IsOperatorPlace text place)
    (hnone : ∀ operator : Operator, ¬ operator.token <+: text.drop place) :
    ofTrimmed text = .error (.unknownOperator ((text.drop place).takeWhile Ascii.isOperator)) := by
  obtain ⟨hne, rfl⟩ := isOperatorPlace_iff.1 hplace
  rw [drop_operatorPlace, ← Operator.atStart?_eq_none_iff] at hnone
  rw [ofTrimmed_of_no_longest h hnone, drop_operatorPlace, if_neg (by simpa using hne)]

/-- A text is refused exactly if, without the white space at its ends, it lacks a field, an operator
or a literal, and its error is of the class of the first of them that it lacks: the classes exclude
each other, and there is no other. A text with a proper field lacks a literal alone exactly if it
ends with its operator. The error tells the trimmed text. A byte that is no operator byte in the
place of the operator is named with its place, and so is what stands there instead of an
operator. -/
theorem parse_classified (text : Bytes) :
    ((∃ error, parse text = .error error) ↔
      LacksField text.trim ∨ LacksOperator text.trim ∨ LacksLiteral text.trim) ∧
    ∀ error, parse text = .error error →
      error.expression = text.trim ∧ error.index = 0 ∧
      (error.fault.kind = .malformedIdentifier ↔ LacksField text.trim) ∧
      (error.fault.kind = .unrecognizedOperator ↔ ¬ LacksField text.trim ∧
        LacksOperator text.trim) ∧
      (error.fault.kind = .emptyLiteral ↔ ¬ LacksField text.trim ∧ ¬ LacksOperator text.trim) ∧
      (¬ LacksField text.trim → (error.fault.kind = .emptyLiteral ↔ LacksLiteral text.trim)) ∧
      (∀ place b, IsOperatorPlace text.trim place → text.trim[place]? = some b →
        Ascii.isOperator b = false →
        error.fault.reason = utf8 "unexpected character '" ++ [b] ++ utf8 "' at position " ++
          Numeral.ofNat place) ∧
      ∀ place, ¬ LacksField text.trim → IsOperatorPlace text.trim place →
        (∀ operator : Operator, ¬ operator.token <+: text.trim.drop place) →
        error.fault.reason =
          utf8 "unknown operator \"" ++ (text.trim.drop place).takeWhile Ascii.isOperator ++
            utf8 "\"" := by
  simp only [parse, mapError_eq_error_iff]
  constructor
  · rw [← exists_error_ofTrimmed_iff (trimmed_trim text)]
    constructor
    · rintro ⟨_, fault, hfault, -⟩
      exact ⟨fault, hfault⟩
    · rintro ⟨fault, hfault⟩
      exact ⟨_, fault, hfault, rfl⟩
  · rintro error ⟨fault, hfault, rfl⟩
    obtain ⟨hfield, hoperator, hempty, hliteral⟩ := kind_of_ofTrimmed (trimmed_trim text) hfault
    refine ⟨rfl, rfl, hfield, hoperator, hempty, hliteral, ?_, ?_⟩
    · intro place b hplace hget hb
      cases hfault.symm.trans (ofTrimmed_of_byte_at hplace hget hb)
      rfl
    · intro place hproper hplace hnone
      cases hfault.symm.trans (ofTrimmed_of_run_at hproper hplace hnone)
      rfl

/-- Operator bytes in the wrong order are told as a whole; without a field in front of them they are
not looked at. -/
theorem parse_classified_of_reversed_operator :
    (∃ error : ParseError, parse (utf8 "\ta =<3 ") = .error error ∧ ¬ LacksField (utf8 "a =<3") ∧
      LacksOperator (utf8 "a =<3") ∧ error.fault.reason = utf8 "unknown operator \"=<\"") ∧
    ∃ error : ParseError, parse (utf8 "=<3") = .error error ∧ LacksOperator (utf8 "=<3") ∧
      error.fault.kind = .malformedIdentifier := by
  have hplace : IsOperatorPlace (utf8 "a =<3") 2 := isOperatorPlace_iff.2 (by decide)
  have hnone : ∀ operator : Operator, ¬ operator.token <+: (utf8 "a =<3").drop 2 :=
    Operator.atStart?_eq_none_iff.1 (by decide)
  obtain ⟨error, herror, hkind⟩ : ∃ error : ParseError,
      parse (utf8 "\ta =<3 ") = .error error ∧ error.fault.kind = .unrecognizedOperator :=
        ⟨_, rfl, rfl⟩
  obtain ⟨-, -, -, hoperator, -, -, -, hreason⟩ :=
    (parse_classified (utf8 "\ta =<3 ")).2 error herror
  obtain ⟨hfield, hlacks⟩ := hoperator.1 hkind
  refine ⟨⟨error, herror, hfield, hlacks, hreason 2 hfield hplace hnone⟩, ?_⟩
  obtain ⟨other, hother⟩ : ∃ other : ParseError, parse (utf8 "=<3") = .error other := ⟨_, rfl⟩
  obtain ⟨-, -, hmalformed, -⟩ := (parse_classified (utf8 "=<3")).2 other hother
  exact ⟨other, hother, lacksOperator_iff.2 (Or.inl (by decide)),
    hmalformed.2 (Or.inr (Or.inr (by decide)))⟩

end Rule

end FieldRules

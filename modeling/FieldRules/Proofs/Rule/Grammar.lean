import FieldRules.Proofs.Sequence
import FieldRules.Proofs.Text.Trim
import FieldRules.Rule.Parser
import Mathlib.Tactic.SplitIfs

/-!
# The grammar of rules

* `Operator.MayPrecede`: the texts that leave an operator in front of them as it is.
* `Rule.Parts`: the five parts of a rule, with the text and the rule that they make up.
* `ofTrimmed_text`: parts that fit together are read as their rule.
* `exists_parts`: every rule that is read comes from such parts.
-/

namespace FieldRules

open Bytes

/-! ### Operators at the start of a text -/

namespace Operator

/-- Holds of a text that makes no longer operator of the one in front of it. -/
def MayPrecede (operator : Operator) (rest : Bytes) : Prop :=
  operator = .less ∨ operator = .greater → rest.head? ≠ some Ascii.equals

theorem token_eq (operator : Operator) : operator.token =
    match operator with
    | .equal => [Ascii.equals, Ascii.equals]
    | .notEqual => [Ascii.exclamation, Ascii.equals]
    | .less => [Ascii.less]
    | .lessEqual => [Ascii.less, Ascii.equals]
    | .greater => [Ascii.greater]
    | .greaterEqual => [Ascii.greater, Ascii.equals] := by
  cases operator <;> rfl

theorem exists_token_cons (operator : Operator) :
    ∃ b rest, operator.token = b :: rest ∧ Ascii.isOperator b = true := by
  cases operator <;> exact ⟨_, _, rfl, by decide⟩

/-- An operator is found in front of a text that leaves it as it is. -/
theorem atStart?_append {operator : Operator} {rest : Bytes} (h : operator.MayPrecede rest) :
    atStart? (operator.token ++ rest) = some operator := by
  by_cases hstrict : operator = .less ∨ operator = .greater
  · cases rest with
    | nil => rcases hstrict with rfl | rfl <;> rfl
    | cons b rest =>
      have hb : (Ascii.equals == b) = false :=
        beq_eq_false_iff_ne.2 fun heq => h hstrict (by rw [heq]; rfl)
      rcases hstrict with rfl | rfl <;> simp +decide [atStart?, all, token_eq, List.find?,
          List.isPrefixOf, hb]
  · cases operator <;> first | rfl | simp at hstrict

/-- The operator that is found stands at the start, and what follows leaves it as it is. -/
theorem exists_of_atStart? {operator : Operator} {text : Bytes}
    (h : atStart? text = some operator) :
    ∃ rest, text = operator.token ++ rest ∧ operator.MayPrecede rest := by
  have hprefix := List.find?_some h
  obtain ⟨rest, rfl⟩ := List.isPrefixOf_iff_prefix.1 hprefix
  refine ⟨rest, rfl, ?_⟩
  intro hstrict hhead
  obtain ⟨tail, rfl⟩ := List.head?_eq_some_iff.1 hhead
  have hlonger : atStart? (operator.token ++ Ascii.equals :: tail) ≠ some operator := by
    rcases hstrict with rfl | rfl
    · show some lessEqual ≠ some less
      decide
    · show some greaterEqual ≠ some greater
      decide
  exact hlonger h

/-- An operator and what follows it are determined by the text they make up. -/
theorem append_inj_of_mayPrecede {operator other : Operator} {rest tail : Bytes}
    (hrest : operator.MayPrecede rest) (htail : other.MayPrecede tail)
    (h : operator.token ++ rest = other.token ++ tail) :
    operator = other ∧ rest = tail := by
  have hfind := atStart?_append hrest
  rw [h, atStart?_append htail] at hfind
  cases hfind
  exact ⟨rfl, List.append_cancel_left h⟩

/-- A text that does not begin with an operator byte leaves an operator in front of it as it is. -/
theorem mayPrecede_of_stops (operator : Operator) {rest : Bytes} (h : Stops Ascii.isOperator rest) :
    operator.MayPrecede rest := by
  intro _ hhead
  exact absurd (h _ hhead) (by decide)

end Operator

/-! ### Classes of bytes -/

namespace Ascii

theorem not_isSpace_of_isIdentifier {b : UInt8} (h : isIdentifier b = true) :
    isSpace b = false := by
  simp only [isIdentifier, isAlphanumeric, isDigit, isUpper, isLower, isSpace] at h ⊢
  grind

theorem not_isIdentifier_of_isOperator {b : UInt8} (h : isOperator b = true) :
    isIdentifier b = false := by
  simp only [isIdentifier, isAlphanumeric, isDigit, isUpper, isLower, isOperator] at h ⊢
  grind

theorem not_isSpace_of_isOperator {b : UInt8} (h : isOperator b = true) : isSpace b = false := by
  simp only [isSpace, isOperator] at h ⊢
  grind

theorem not_isOperator_of_isSpace {b : UInt8} (h : isSpace b = true) : isOperator b = false := by
  by_contra hoperator
  rw [not_isSpace_of_isOperator (by simpa using hoperator)] at h
  cases h

end Ascii

namespace Rule

/-! ### Parts -/

/-- The parts of a rule: field, white space, operator, white space, literal. -/
structure Parts where
  field : Bytes
  gap : Bytes
  operator : Operator
  space : Bytes
  literal : Bytes

namespace Parts

/-- The parts as they are written. -/
def text (parts : Parts) : Bytes :=
  parts.field ++ (parts.gap ++ (parts.operator.token ++ (parts.space ++ parts.literal)))

/-- The rule that the parts make up. -/
def rule (parts : Parts) : Rule :=
  ⟨parts.field, parts.operator, .ofText parts.literal, parts.text⟩

/-- Holds of parts that fit together: the operator does not go on, and a literal that begins with an
operator byte stands right behind it. -/
structure WellFormed (parts : Parts) : Prop where
  field_ne_nil : parts.field ≠ []
  isIdentifier : ∀ b ∈ parts.field, Ascii.isIdentifier b = true
  gap : IsGap parts.gap
  mayPrecede : parts.operator.MayPrecede (parts.space ++ parts.literal)
  space : IsGap parts.space
  literal_ne_nil : parts.literal ≠ []
  trimmed : Trimmed parts.literal
  adjacent : parts.space ≠ [] → Stops Ascii.isOperator parts.literal

/-- A rule with its parts begins with a letter, a digit or an underscore and ends with its
literal. -/
theorem WellFormed.trimmed_text {parts : Parts} (h : parts.WellFormed) : Trimmed parts.text where
  start := by
    obtain ⟨b, tail, hfield⟩ := List.exists_cons_of_ne_nil h.field_ne_nil
    rw [text, hfield, List.cons_append, stops_cons]
    exact Ascii.not_isSpace_of_isIdentifier (h.isIdentifier b
      (by rw [hfield]; exact List.mem_cons_self ..))
  finish := by
    rw [text, ← List.append_assoc, ← List.append_assoc, ← List.append_assoc]
    exact stops_reverse_append h.literal_ne_nil h.trimmed.finish

theorem WellFormed.parseOperand {parts : Parts} (h : parts.WellFormed) :
    Rule.parseOperand parts.operator (parts.space ++ parts.literal) =
      .ok (.ofText parts.literal) := by
  obtain ⟨first, tail, hliteral⟩ := List.exists_cons_of_ne_nil h.literal_ne_nil
  rw [Rule.parseOperand, trim_append h.space h.trimmed]
  cases hspace : parts.space with
  | nil =>
    have hfirst : Ascii.isSpace first = false := stops_cons.1 (hliteral ▸ h.trimmed.start)
    simp [hliteral, hfirst]
  | cons next rest =>
    have hfirst : Ascii.isOperator first = false :=
      stops_cons.1 (hliteral ▸ h.adjacent (by simp [hspace]))
    simp [hliteral, hfirst]

/-- What follows the field begins with white space or an operator byte, and goes on with the
operator. -/
theorem WellFormed.stops_field {parts : Parts} (h : parts.WellFormed) (rest : Bytes) :
    Stops Ascii.isIdentifier (parts.gap ++ (parts.operator.token ++ rest)) := by
  cases hgap : parts.gap with
  | nil =>
    obtain ⟨b, tail, htoken, hb⟩ := parts.operator.exists_token_cons
    rw [htoken, List.nil_append, List.cons_append, stops_cons]
    exact Ascii.not_isIdentifier_of_isOperator hb
  | cons b tail =>
    rw [List.cons_append, stops_cons]
    have hspace : Ascii.isSpace b = true := h.gap b (by rw [hgap]; exact List.mem_cons_self ..)
    by_contra hidentifier
    rw [Ascii.not_isSpace_of_isIdentifier (by simpa using hidentifier)] at hspace
    cases hspace

theorem stops_gap (parts : Parts) (rest : Bytes) :
    Stops Ascii.isSpace (parts.operator.token ++ rest) := by
  obtain ⟨b, tail, htoken, hb⟩ := parts.operator.exists_token_cons
  rw [htoken, List.cons_append, stops_cons]
  exact Ascii.not_isSpace_of_isOperator hb

/-- Parts that fit together are read as their rule. -/
theorem WellFormed.ofTrimmed_text {parts : Parts} (h : parts.WellFormed) :
    ofTrimmed parts.text = .ok parts.rule := by
  obtain ⟨b, tail, htoken, hb⟩ := parts.operator.exists_token_cons
  have hfield : parts.text.takeWhile Ascii.isIdentifier = parts.field :=
    takeWhile_append_of_stops h.isIdentifier (h.stops_field _)
  have hrest : (parts.text.dropWhile Ascii.isIdentifier).dropWhile Ascii.isSpace =
      parts.operator.token ++ (parts.space ++ parts.literal) := by
    rw [text, dropWhile_append_of_stops h.isIdentifier (h.stops_field _),
      dropWhile_append_of_stops h.gap (parts.stops_gap _)]
  have hfind := Operator.atStart?_append h.mayPrecede
  have hoperand := h.parseOperand
  have hdrop :
      (parts.operator.token ++ (parts.space ++ parts.literal)).drop parts.operator.token.length =
      parts.space ++ parts.literal := List.drop_left
  unfold ofTrimmed
  rw [hfield, hrest]
  cases hoperator : parts.operator.token ++ (parts.space ++ parts.literal) with
  | nil => simp [htoken] at hoperator
  | cons c after =>
    have hc : Ascii.isOperator c = true := by
      rw [htoken] at hoperator
      cases hoperator
      exact hb
    have hempty : parts.field.isEmpty = false := by simpa using h.field_ne_nil
    rw [hoperator] at hfind hdrop
    simp only [hc, hempty, hfind, hdrop, hoperand]
    rfl

end Parts

/-! ### Parts of a rule that is read -/

/-- The operand of a rule that is read is behind a gap; a literal that begins with an operator byte
has none. -/
theorem exists_of_parseOperand {operator : Operator} {after : Bytes} {operand : Literal}
    (hfinish : Stops Ascii.isSpace after.reverse) (h : parseOperand operator after = .ok operand) :
    ∃ space literal, after = space ++ literal ∧ IsGap space ∧ literal ≠ [] ∧ Trimmed literal ∧
      (space ≠ [] → Stops Ascii.isOperator literal) ∧ operand = .ofText literal := by
  obtain ⟨space, hspace, hafter⟩ := exists_gap after
  have hliteral : after.trim = trimStart after := trim_of_stops_reverse hfinish
  refine ⟨space, after.trim, by rw [hliteral, ← hafter], hspace, ?_⟩
  unfold parseOperand at h
  dsimp only at h
  split at h
  · next first next hfirst hnext =>
    split_ifs at h with hslip
    cases h
    refine ⟨?_, trimmed_trim after, ?_, rfl⟩
    · intro hnil
      simp [hnil] at hfirst
    -- what follows the operator begins with white space exactly if there is some in front of the
    -- literal
    · intro hne b hb
      obtain ⟨c, tail, rfl⟩ := List.exists_cons_of_ne_nil hne
      rw [hafter] at hnext
      cases hnext
      rw [hfirst] at hb
      cases hb
      have hnext : Ascii.isSpace next = true := hspace next (List.mem_cons_self ..)
      simpa [hnext] using hslip
  · cases h

/-- A rule that is read from a trimmed text comes from parts that fit together. -/
theorem exists_parts {text : Bytes} {rule : Rule} (htrimmed : Trimmed text)
    (h : ofTrimmed text = .ok rule) :
    ∃ parts : Parts, parts.WellFormed ∧ parts.text = text ∧ parts.rule = rule := by
  have htext : text.takeWhile Ascii.isIdentifier ++ text.dropWhile Ascii.isIdentifier = text :=
    List.takeWhile_append_dropWhile ..
  obtain ⟨gap, hgap, hrest⟩ := exists_gap (text.dropWhile Ascii.isIdentifier)
  unfold ofTrimmed at h
  dsimp only at h
  split at h
  · cases h
  · split_ifs at h with hbyte hempty
    split at h
    · cases h
    · next operator hfind =>
      obtain ⟨operand, hoperand, hrule⟩ := bind_eq_ok_iff.1 h
      cases hrule
      obtain ⟨after, hafter, hmay⟩ := Operator.exists_of_atStart? hfind
      rw [hafter, List.drop_left] at hoperand
      rw [trimStart, hafter] at hrest
      rw [hrest] at htext
      -- the rule ends where its literal does
      have hfinish : Stops Ascii.isSpace after.reverse := by
        have := htrimmed.finish
        rw [← htext] at this
        exact stops_reverse_of_append (stops_reverse_of_append (stops_reverse_of_append this))
      obtain ⟨space, literal, rfl, hspace, hne, hliteral, hadjacent, rfl⟩ :=
        exists_of_parseOperand hfinish hoperand
      have hparts : Parts.text ⟨text.takeWhile Ascii.isIdentifier, gap, operator, space, literal⟩ =
          text := htext
      refine ⟨⟨_, gap, operator, space, literal⟩, ?_, hparts, ?_⟩
      · refine ⟨?_, fun b hb => List.mem_takeWhile_imp hb, hgap, hmay, hspace, hne,
          hliteral, hadjacent⟩
        simpa using hempty
      · rw [Parts.rule, hparts]

/-- The grammar of rules: a text is read as a rule if, trimmed, it has parts that fit together and
make up the rule. -/
theorem parse_eq_ok_iff {text : Bytes} {rule : Rule} :
    parse text = .ok rule ↔ ∃ parts : Parts, parts.WellFormed ∧ parts.text = text.trim ∧
      parts.rule = rule := by
  rw [parse, mapError_eq_ok_iff]
  constructor
  · exact exists_parts (trimmed_trim text)
  · rintro ⟨parts, hparts, htext, rfl⟩
    rw [← htext]
    exact hparts.ofTrimmed_text

theorem Parts.WellFormed.parse_eq {parts : Parts} {text : Bytes} (h : parts.WellFormed)
    (htext : parts.text = text.trim) :
    parse text = .ok ⟨parts.field, parts.operator, .ofText parts.literal, text.trim⟩ := by
  rw [← htext]
  exact parse_eq_ok_iff.2 ⟨parts, h, htext, rfl⟩

end Rule

end FieldRules

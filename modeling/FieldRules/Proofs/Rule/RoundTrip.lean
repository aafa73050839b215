import FieldRules.Proofs.Rule.Grammar
import FieldRules.Proofs.Rule.Literal

/-!
# The canonical text of a rule

The canonical text of a rule reads back as the rule, whether the rule was read from some text or put
together from a field name, an operator and a literal that is no string.

* `Rule.ReadsBack`: the canonical text of a rule is read, and as a rule of the same meaning.
* `canonical_reads_back`: this holds of both kinds of rules.
-/

namespace FieldRules.Rule

open Bytes

/-- Holds if the canonical text of a rule is read as a rule with the same field, operator and
literal. Literals are compared with their types and, in zeros, their signs. -/
def ReadsBack (rule : Rule) : Prop :=
  ∃ again : Rule, parse rule.canonical = .ok again ∧ again.sameMeaning rule = true ∧
    again.operand = rule.operand ∧
    again.operand.typeName = rule.operand.typeName ∧ again.canonical = rule.canonical ∧
    again.expression = rule.canonical

/-- The parts that the canonical text of a rule is written from. -/
def canonicalParts (rule : Rule) : Parts :=
  ⟨rule.field, [], rule.operator, [], rule.operand.text⟩

theorem text_canonicalParts (rule : Rule) : rule.canonicalParts.text = rule.canonical := by
  simp [Parts.text, canonicalParts, canonical]

/-- The canonical text of a rule reads back if its parts fit together and the literal is what its
text stands for. -/
theorem readsBack_of_wellFormed {rule : Rule} (hparts : rule.canonicalParts.WellFormed)
    (hoperand : Literal.ofText rule.operand.text = rule.operand)
    (hnumber : rule.operand ≠ .double .nan) :
    rule.ReadsBack := by
  have htext := text_canonicalParts rule
  have htrim : rule.canonical.trim = rule.canonical := trim_of_trimmed (htext ▸ hparts.trimmed_text)
  refine ⟨rule.canonicalParts.rule, parse_eq_ok_iff.2 ⟨_, hparts, htext.trans htrim.symm, rfl⟩, ?_,
    hoperand, ?_, ?_, htext⟩
  · show (_ && (Literal.ofText rule.operand.text).sameValue rule.operand) = true
    rw [hoperand, Literal.sameValue_self hnumber]
    simp [Parts.rule, canonicalParts]
  · exact congrArg Literal.typeName hoperand
  · show rule.field ++ rule.operator.token ++ (Literal.ofText rule.operand.text).text = _
    rw [hoperand, canonical]

/-- Without white space a field name, an operator and a text that stands behind it fit together. -/
theorem Parts.wellFormed_of_upright {field literal : Bytes} (operator : Operator) (hne : field ≠ [])
    (hfield : ∀ b ∈ field, Ascii.isIdentifier b = true) (h : Upright literal) :
    (⟨field, [], operator, [], literal⟩ : Parts).WellFormed :=
  ⟨hne, hfield, isGap_nil, Operator.mayPrecede_of_stops _ h.stops_isOperator, isGap_nil,
    h.ne_nil, h.trimmed, fun hspace => absurd rfl hspace⟩

/-- A rule put together from a field name, an operator and a literal that is no string reads
back. -/
theorem readsBack_of_isScalar {rule : Rule} (hne : rule.field ≠ [])
    (hfield : ∀ b ∈ rule.field, Ascii.isIdentifier b = true)
    (hoperand : rule.operand.isScalar = true) :
    rule.ReadsBack := by
  refine readsBack_of_wellFormed ?_ (Literal.ofText_text hoperand) ?_
  · exact Parts.wellFormed_of_upright _ hne hfield (Literal.upright_text hoperand)
  · intro hnan
    rw [hnan] at hoperand
    cases hoperand

/-- A string literal that was read stands behind the operator without white space as it did with it:
where there was white space, the string begins with no operator byte. -/
theorem mayPrecede_of_parts {parts : Parts} (h : parts.WellFormed) :
    parts.operator.MayPrecede parts.literal := by
  cases hspace : parts.space with
  | nil =>
    have hmay := h.mayPrecede
    rwa [hspace, List.nil_append] at hmay
  | cons b rest =>
    exact Operator.mayPrecede_of_stops _ (h.adjacent (by simp [hspace]))

/-- A rule that was read from some text reads back. -/
theorem readsBack_of_parse {text : Bytes} {rule : Rule} (h : parse text = .ok rule) :
    rule.ReadsBack := by
  obtain ⟨parts, hparts, -, rfl⟩ := parse_eq_ok_iff.1 h
  rcases Literal.ofText_cases parts.literal with hscalar | hstring
  · exact readsBack_of_isScalar hparts.field_ne_nil hparts.isIdentifier hscalar
  -- the string is written as it stands in the text, without the white space in front of it
  · have hliteral : parts.rule.operand.text = parts.literal := congrArg Literal.text hstring
    refine readsBack_of_wellFormed ?_ (congrArg Literal.ofText hliteral) ?_
    · refine ⟨hparts.field_ne_nil, hparts.isIdentifier, isGap_nil, ?_, isGap_nil, ?_, ?_,
        fun hspace => absurd rfl hspace⟩
      all_goals simp only [canonicalParts, hliteral]
      · exact mayPrecede_of_parts hparts
      · exact hparts.literal_ne_nil
      · exact hparts.trimmed
    · intro hnan
      exact absurd (hstring.symm.trans hnan) (by simp)

/-- The canonical text of a rule reads back, for every rule that some text is read as, and for every
rule whose field is a name and whose literal is an integer of 64 bits, a boolean or a finite
number. -/
theorem canonical_reads_back :
    (∀ (text : Bytes) (rule : Rule), parse text = .ok rule → rule.ReadsBack) ∧
    ∀ rule : Rule, rule.field ≠ [] → (∀ b ∈ rule.field, Ascii.isIdentifier b = true) →
      rule.operand.isScalar = true → rule.ReadsBack :=
  ⟨fun _ _ => readsBack_of_parse, fun _ => readsBack_of_isScalar⟩

/-- A string that begins with an operator byte, and the negative number next to zero. -/
theorem canonical_reads_back_hard_cases :
    (⟨utf8 "name", .greater, .string (utf8 "<b"), utf8 "name ><b"⟩ : Rule).ReadsBack ∧
    (⟨utf8 "x_1", .lessEqual, .double (.finite true ⟨1, by decide⟩), []⟩ : Rule).ReadsBack :=
  ⟨canonical_reads_back.1 (utf8 " name ><b") _ (by decide),
    canonical_reads_back.2 _ (by decide) (List.all_eq_true.1 (by decide)) (by decide)⟩

end FieldRules.Rule

import FieldRules.Proofs.Rule.Grammar

/-!
# The parts of a rule

A text splits into the parts of a rule in one way at most, so that what a rule means can be told
from its parts alone.

* `Parts.WellFormed.eq_of_text_eq`: parts that fit together are determined by their text.
* `Parts.respace`: the parts of a rule with other white space between them.
* `grammar_unambiguous`: which texts are read, as which rules, and what white space has to do with
  it.
-/

namespace FieldRules.Rule

open Bytes

namespace Parts

/-! ### One way to split a text -/

/-- Parts that fit together are determined by their text. From left to right, each of them ends
where its bytes do. -/
theorem WellFormed.eq_of_text_eq {parts other : Parts} (h : parts.WellFormed)
    (hother : other.WellFormed) (htext : parts.text = other.text) : parts = other := by
  obtain ⟨hfield, hrest⟩ :=
    append_inj_of_stops h.isIdentifier hother.isIdentifier (h.stops_field _)
      (hother.stops_field _) htext
  obtain ⟨hgap, hrest⟩ :=
    append_inj_of_stops h.gap hother.gap (parts.stops_gap _) (other.stops_gap _) hrest
  obtain ⟨hoperator, hrest⟩ :=
    Operator.append_inj_of_mayPrecede h.mayPrecede hother.mayPrecede hrest
  obtain ⟨hspace, hliteral⟩ :=
    append_inj_of_stops h.space hother.space h.trimmed.start hother.trimmed.start hrest
  cases parts
  cases other
  simp only [Parts.mk.injEq]
  exact ⟨hfield, hgap, hoperator, hspace, hliteral⟩

/-! ### Other white space -/

/-- The parts with other white space on both sides of the operator. -/
def respace (parts : Parts) (gap space : Bytes) : Parts :=
  { parts with gap, space }

/-- A literal that does not begin with an operator byte may have any white space in front of it. -/
theorem WellFormed.respace {parts : Parts} (h : parts.WellFormed)
    (hliteral : Stops Ascii.isOperator parts.literal) {gap space : Bytes} (hgap : IsGap gap)
    (hspace : IsGap space) : (parts.respace gap space).WellFormed where
  field_ne_nil := h.field_ne_nil
  isIdentifier := h.isIdentifier
  gap := hgap
  mayPrecede := by
    refine parts.operator.mayPrecede_of_stops ?_
    change Stops Ascii.isOperator (space ++ parts.literal)
    cases space with
    | nil => exact hliteral
    | cons b rest =>
        exact stops_cons.2 (Ascii.not_isOperator_of_isSpace (hspace b (List.mem_cons_self ..)))
  space := hspace
  literal_ne_nil := h.literal_ne_nil
  trimmed := h.trimmed
  adjacent := fun _ => hliteral

end Parts

/-- Parts that fit together are read as their rule, whatever white space is around them. -/
theorem parse_pad {parts : Parts} (h : parts.WellFormed) {left right : Bytes} (hleft : IsGap left)
    (hright : IsGap right) : parse (left ++ parts.text ++ right) = .ok parts.rule := by
  refine parse_eq_ok_iff.2 ⟨parts, h, ?_, rfl⟩
  rw [trim_pad hleft hright, trim_of_trimmed h.trimmed_text]

/-- The grammar of rules. A text is read exactly if, trimmed, it is a field, white space, an
operator, white space and a literal that fit together. It is so in one way only, and the rule is
made of these parts: the literal alone decides on the operand, and the white space on nothing unless
the literal begins with an operator byte. -/
theorem grammar_unambiguous (text : Bytes) :
    ((∃ rule, parse text = .ok rule) ↔ ∃ parts : Parts, parts.WellFormed ∧ parts.text = text.trim) ∧
    ∀ parts : Parts, parts.WellFormed → parts.text = text.trim →
      (∀ other : Parts, other.WellFormed → other.text = text.trim → other = parts) ∧
      parse text = .ok ⟨parts.field, parts.operator, .ofText parts.literal, text.trim⟩ ∧
      (Stops Ascii.isOperator parts.literal → ∀ left gap space right : Bytes,
        IsGap left → IsGap gap → IsGap space → IsGap right →
        parse (left ++ (parts.respace gap space).text ++ right) =
          .ok ⟨parts.field, parts.operator, .ofText parts.literal,
            (parts.respace gap space).text⟩) := by
  refine ⟨?_, ?_⟩
  · simp only [parse_eq_ok_iff]
    constructor
    · rintro ⟨rule, parts, hparts, htext, -⟩
      exact ⟨parts, hparts, htext⟩
    · rintro ⟨parts, hparts, htext⟩
      exact ⟨parts.rule, parts, hparts, htext, rfl⟩
  · intro parts hparts htext
    refine ⟨?_, ?_, ?_⟩
    · intro other hother hsame
      exact hother.eq_of_text_eq hparts (hsame.trans htext.symm)
    · rw [← htext]
      exact parse_eq_ok_iff.2 ⟨parts, hparts, htext, rfl⟩
    · intro hliteral left gap space right hleft hgap hspace hright
      exact parse_pad (hparts.respace hliteral hgap hspace) hleft hright

/-- The rule `a<>b` compares with the string `>b`, and `a < b` has the same meaning however it is
spaced; there are no parts of `a< =1`. -/
theorem grammar_unambiguous_of_angle_brackets :
    parse (utf8 " a<>b") = .ok ⟨utf8 "a", .less, .string (utf8 ">b"), utf8 "a<>b"⟩ ∧
    parse (utf8 "a <\tb\n") = .ok ⟨utf8 "a", .less, .string (utf8 "b"), utf8 "a <\tb"⟩ ∧
    ¬ ∃ parts : Parts, parts.WellFormed ∧ parts.text = (utf8 "a< =1").trim := by
  have hidentifier : ∀ b ∈ utf8 "a", Ascii.isIdentifier b = true := List.all_eq_true.1 (by decide)
  have hadjacent : (⟨utf8 "a", [], .less, [], utf8 ">b"⟩ : Parts).WellFormed :=
    ⟨by decide, hidentifier, isGap_nil, fun _ => by decide, isGap_nil, by decide,
      ⟨by decide, by decide⟩, fun hspace => absurd rfl hspace⟩
  have hword : (⟨utf8 "a", [], .less, [], utf8 "b"⟩ : Parts).WellFormed :=
    ⟨by decide, hidentifier, isGap_nil, fun _ => by decide, isGap_nil, by decide,
      ⟨by decide, by decide⟩, fun hspace => absurd rfl hspace⟩
  refine ⟨?_, ?_, ?_⟩
  · exact ((grammar_unambiguous (utf8 " a<>b")).2 _ hadjacent (by decide)).2.1
  · exact ((grammar_unambiguous (utf8 "a<b")).2 _ hword (by decide)).2.2 (by decide)
      [] (utf8 " ") (utf8 "\t") (utf8 "\n") isGap_nil (List.all_eq_true.1 (by decide))
      (List.all_eq_true.1 (by decide)) (List.all_eq_true.1 (by decide))
  · rw [← (grammar_unambiguous (utf8 "a< =1")).1]
    rintro ⟨rule, hrule⟩
    have hslip : parse (utf8 "a< =1") = .error ⟨.rule (.separatedOperator .less Ascii.equals),
        utf8 "a< =1", 0⟩ := by
      decide
    rw [hslip] at hrule
    cases hrule

end FieldRules.Rule

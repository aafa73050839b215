import FieldRules.Proofs.Rule.Rereading
import FieldRules.Proofs.Validator.Construction

/-!
# Refused validators

A validator is built as a whole or not at all. If it is not, there is one error: that of the first
rule that is refused, or, with all rules read, that of the first flag that is.

* `Rule.exists_parseAll_iff`: a list of rules is read as a whole if each of them is.
* `ofTexts_eq_error_iff`, `create_of_error`: when a validator is refused, and what is logged then.
* `create_first_error`: which of several errors is told, and what has no part in it.
-/

namespace FieldRules

namespace Rule

variable {texts : List Bytes} {rules : List Rule}

theorem exists_parse_of_getElem? (h : parseAll texts = .ok rules) {i : Nat} {text : Bytes}
    (htext : texts[i]? = some text) :
    ∃ rule, parse text = .ok rule ∧ rules[i]? = some rule := by
  obtain ⟨hlength, hread⟩ := List.forall₂_iff_get.1 (parseAll_eq_ok_iff.1 h)
  obtain ⟨hi, rfl⟩ := List.getElem?_eq_some_iff.1 htext
  exact ⟨_, hread i hi (hlength ▸ hi), List.getElem?_eq_getElem (hlength ▸ hi)⟩

theorem exists_parseAll_iff :
    (∃ rules, parseAll texts = .ok rules) ↔ ∀ text ∈ texts, ∃ rule, parse text = .ok rule := by
  constructor
  · rintro ⟨rules, hrules⟩ text htext
    obtain ⟨i, hi⟩ := List.getElem?_of_mem htext
    obtain ⟨rule, hrule, -⟩ := exists_parse_of_getElem? hrules hi
    exact ⟨rule, hrule⟩
  · intro hall
    cases hparsed : parseAll texts with
    | ok rules => exact ⟨rules, rfl⟩
    | error error =>
      obtain ⟨before, text, after, rfl, -, found, hfound, -⟩ := parseAll_eq_error_iff.1 hparsed
      obtain ⟨rule, hrule⟩ := hall text (by simp)
      rw [hfound] at hrule
      cases hrule

end Rule

theorem Options.index_lt_of_ofFlags {flags : List Bytes} {error : ParseError}
    (h : ofFlags flags = .error error) :
    error.index < flags.length := by
  obtain ⟨front, text, back, rfl, -, fault, -, rfl⟩ := ofFlags_eq_error_iff.1 h
  simp

namespace Validator

variable {rules flags ignores : List Bytes} {error : ParseError}

/-- A validator is refused for its rules, or for its flags if all rules are read. -/
theorem ofTexts_eq_error_iff :
    ofTexts rules flags ignores = .error error ↔
      Rule.parseAll rules = .error error ∨
        (∀ text ∈ rules, ∃ rule, Rule.parse text = .ok rule) ∧
          Options.ofFlags flags = .error error := by
  have hflags (parsed : List Rule) :
      (do let options ← Options.ofFlags flags; return ⟨parsed, { options with ignores }⟩ :
        Except ParseError Validator) = .error error ↔ Options.ofFlags flags = .error error := by
    rw [bind_eq_error_iff, or_iff_left]
    rintro ⟨options, -, ⟨⟩⟩
  rw [ofTexts, bind_eq_error_iff, ← Rule.exists_parseAll_iff]
  simp only [hflags, exists_and_right]

/-- What comes of a refused validator is its error, in the log as well. -/
theorem create_of_error (h : ofTexts rules flags ignores = .error error) :
    create rules flags ignores = ⟨.error error, [⟨.debug, error.describe⟩]⟩ := by
  have hmessage : constructionMessage rules flags ignores = error.describe := by
    rw [constructionMessage, h]
  rw [create, hmessage, h]
  rfl

/-- A rule that is refused behind rules that are read is the error of the validator, whatever else
it is to be built of. -/
theorem ofTexts_of_refused_rule {before : List Bytes} {text : Bytes}
    (hbefore : ∀ other ∈ before, ∃ rule, Rule.parse other = .ok rule)
    (htext : Rule.parse text = .error error) (after flags ignores : List Bytes) :
    ofTexts (before ++ text :: after) flags ignores = .error { error with index :=
      before.length } :=
  ofTexts_eq_error_iff.2 <| Or.inl <| Rule.parseAll_eq_error_iff.2 ⟨before, text, after, rfl,
    hbefore, error, htext, rfl⟩

/-- A validator is built as a whole, or its first error is told. It is built exactly if every rule
and the flags are read. It then has a rule for each text, in the place of that text, and the options
that the flags set with the names to ignore. The error of a rule comes before any of a flag. It is
that of the first rule that is refused, with the place of that rule, and neither the rules behind
that one nor the flags and names have a part in what is told or logged. With all rules read the
error is that of the flags, with the place of one of them. -/
theorem create_first_error (rules flags ignores : List Bytes) :
    ((∃ validator, (create rules flags ignores).value = .ok validator) ↔
      (∀ text ∈ rules, ∃ rule, Rule.parse text = .ok rule) ∧
        ∃ options, Options.ofFlags flags = .ok options) ∧
    (∀ validator, (create rules flags ignores).value = .ok validator →
      validator.rules.length = rules.length ∧
      (∀ (i : Nat) text, rules[i]? = some text →
        ∃ rule, Rule.parse text = .ok rule ∧ validator.rules[i]? = some rule) ∧
      ∃ options, Options.ofFlags flags = .ok options ∧
        validator.options = { options with ignores }) ∧
    (∀ error, (create rules flags ignores).value = .error error ↔
      (∃ before text after, rules = before ++ text :: after ∧
        (∀ other ∈ before, ∃ rule, Rule.parse other = .ok rule) ∧
        ∃ found, Rule.parse text = .error found ∧ error = { found with index := before.length }) ∨
      (∀ text ∈ rules, ∃ rule, Rule.parse text = .ok rule) ∧ Options.ofFlags flags = .error error ∧
        error.index < flags.length) ∧
    ∀ before text after, rules = before ++ text :: after →
      (∀ other ∈ before, ∃ rule, Rule.parse other = .ok rule) →
      (∀ rule, Rule.parse text ≠ .ok rule) →
      ∀ others marks names,
        create (before ++ text :: others) marks names = create rules flags ignores := by
  simp only [value_create]
  refine ⟨?_, ?_, ?_, ?_⟩
  · simp only [← Rule.exists_parseAll_iff, ofTexts, bind_eq_ok_iff]
    constructor
    · rintro ⟨validator, parsed, hparsed, options, hoptions, -⟩
      exact ⟨⟨parsed, hparsed⟩, options, hoptions⟩
    · rintro ⟨⟨parsed, hparsed⟩, options, hoptions⟩
      exact ⟨_, parsed, hparsed, options, hoptions, rfl⟩
  · intro validator hvalidator
    simp only [ofTexts, bind_eq_ok_iff] at hvalidator
    obtain ⟨parsed, hparsed, options, hoptions, ⟨⟩⟩ := hvalidator
    exact ⟨(Rule.parseAll_eq_ok_iff.1 hparsed).length_eq.symm, fun i text =>
      Rule.exists_parse_of_getElem? hparsed,
      options, hoptions, rfl⟩
  · intro error
    rw [ofTexts_eq_error_iff, Rule.parseAll_eq_error_iff]
    refine or_congr_right (and_congr_right fun _ => ?_)
    exact (and_iff_left_of_imp Options.index_lt_of_ofFlags).symm
  · rintro before text after rfl hbefore hrefused others marks names
    cases htext : Rule.parse text with
    | ok rule => exact absurd htext (hrefused rule)
    | error found =>
      rw [create_of_error (ofTexts_of_refused_rule hbefore htext others marks names),
        create_of_error (ofTexts_of_refused_rule hbefore htext after flags ignores)]

/-- The second rule is told, though the third and a flag are refused as well. -/
theorem create_first_error_of_many_errors :
    ∃ error : ParseError, error.fault.kind = .unrecognizedOperator ∧ error.index = 1 ∧
      (create [utf8 " a == 1", utf8 "b = 2 ", utf8 "c"] [utf8 "what"] []).value = .error error ∧
      create [utf8 " a == 1", utf8 "b = 2 "] [] [utf8 "b"] =
        create [utf8 " a == 1", utf8 "b = 2 ", utf8 "c"] [utf8 "what"] [] := by
  obtain ⟨rule, hrule⟩ : ∃ rule, Rule.parse (utf8 " a == 1") = .ok rule := ⟨_, rfl⟩
  obtain ⟨found, hfound⟩ : ∃ found : ParseError,
      found = ⟨.rule (.unknownOperator (utf8 "=")), utf8 "b = 2", 0⟩ := ⟨_, rfl⟩
  have hrefused : Rule.parse (utf8 "b = 2 ") = .error found := by
    rw [hfound]
    rfl
  have hbefore : ∀ other ∈ [utf8 " a == 1"], ∃ rule, Rule.parse other = .ok rule := by
    simpa using ⟨rule, hrule⟩
  have hall := create_first_error [utf8 " a == 1", utf8 "b = 2 ", utf8 "c"] [utf8 "what"] []
  refine ⟨{ found with index := 1 }, by rw [hfound]; rfl, rfl, ?_, ?_⟩
  · exact (hall.2.2.1 _).2 (Or.inl ⟨[utf8 " a == 1"], _, _, rfl, hbefore, found, hrefused, rfl⟩)
  · exact hall.2.2.2 [utf8 " a == 1"] _ _ rfl hbefore (by simp [hrefused]) [] [] [utf8 "b"]

end Validator

end FieldRules

import FieldRules.Proofs.Evaluation.Rewording
import FieldRules.Proofs.Rule.Rereading
import FieldRules.Proofs.Validator.Construction

/-!
# Rebuilding validators

A validator has kept what it takes to build it again: the texts of its rules, the tokens of its
flags and the names to ignore.

* `ofTexts_of_stored`: the stored tokens and names give the same options again.
* `ofTexts_of_expressions`, `ofTexts_of_canonical`: what is built again from the two kinds of texts
  of rules.
* `Validator.Rebuilds`: what a validator that is built again has in common with the one that it is
  built from.
* `create_of_parts`: a validator is rebuilt from its parts.
-/

namespace FieldRules

theorem Rule.rewords_normal : Rewords normal :=
  ⟨fun _ => rfl, fun _ => rfl, fun _ => rfl⟩

namespace Validator

/-- Holds of a validator if another has been built again as it: rule by rule they mean the same,
they have the same options, and they come to the same on every document, to the same report or to an
error that tells the same, and log the same on the way. -/
structure Rebuilds [DoublePrinter] (again validator : Validator) : Prop where
  rules : List.Forall₂ (fun rule other : Rule => rule.sameMeaning other = true)
    again.rules validator.rules
  options : again.options = validator.options
  evaluate : ∀ document, (·.mapError EvaluationError.contents) <$> again.evaluate document =
    (·.mapError EvaluationError.contents) <$> validator.evaluate document

variable {rules flags ignores texts : List Bytes} {parsed : List Rule} {validator : Validator}

/-- The tokens that a validator has stored are consistent, and with the stored names they set its
options again: a token has no white space left to trim. -/
theorem ofTexts_of_stored (h : ofTexts rules flags ignores = .ok validator)
    (hparsed : Rule.parseAll texts = .ok parsed) :
    ofTexts texts validator.options.tokens validator.options.ignores =
      .ok ⟨parsed, validator.options⟩ := by
  obtain ⟨-, hconsistent, hoptions⟩ := ofTexts_eq_ok_iff.1 h
  have htokens : validator.options.tokens.map Bytes.trim = flags.map Bytes.trim := by
    rw [hoptions]
    show (flags.map Bytes.trim).map Bytes.trim = _
    rw [List.map_map]
    exact List.map_congr_left fun flag _ => Bytes.trim_trim flag
  have hignores : validator.options.ignores = ignores := congrArg Options.ignores hoptions
  exact ofTexts_eq_ok_iff.2 ⟨hparsed, htokens ▸ hconsistent, by rw [htokens, hignores, hoptions]⟩

/-- From the texts that its rules were read from a validator is built again as it is. -/
theorem ofTexts_of_expressions (h : ofTexts rules flags ignores = .ok validator) :
    ofTexts (validator.rules.map Rule.expression) validator.options.tokens
      validator.options.ignores = .ok validator :=
  ofTexts_of_stored h (Rule.parseAll_expression (ofTexts_eq_ok_iff.1 h).1)

/-- From the canonical texts of its rules a validator is built again but for the texts that its
rules were read from. -/
theorem ofTexts_of_canonical (h : ofTexts rules flags ignores = .ok validator) :
    ofTexts (validator.rules.map Rule.canonical) validator.options.tokens
      validator.options.ignores =
      .ok ⟨validator.rules.map Rule.normal, validator.options⟩ :=
  ofTexts_of_stored h (Rule.parseAll_canonical (ofTexts_eq_ok_iff.1 h).1)

theorem exists_parse_of_mem (h : ofTexts rules flags ignores = .ok validator) {rule : Rule}
    (hrule : rule ∈ validator.rules) :
    ∃ text ∈ rules, Rule.parse text = .ok rule :=
  Rule.exists_parse_of_parseAll (ofTexts_eq_ok_iff.1 h).1 hrule

theorem rebuilds_self [DoublePrinter] (h : ofTexts rules flags ignores = .ok validator) :
    validator.Rebuilds validator where
  rules := List.forall₂_same.2 fun rule hrule => by
    obtain ⟨text, -, htext⟩ := exists_parse_of_mem h hrule
    exact Rule.sameMeaning_self htext
  options := rfl
  evaluate _ := rfl

theorem rebuilds_normal [DoublePrinter] (h : ofTexts rules flags ignores = .ok validator) :
    Rebuilds ⟨validator.rules.map Rule.normal, validator.options⟩ validator where
  rules := by
    rw [List.forall₂_map_left_iff, List.forall₂_same]
    intro rule hrule
    obtain ⟨text, -, htext⟩ := exists_parse_of_mem h hrule
    exact Rule.sameMeaning_normal htext
  options := rfl
  evaluate document := by
    have hvalue :
        (FieldRules.evaluate (validator.rules.map Rule.normal) validator.options document).mapError
        EvaluationError.contents =
        (FieldRules.evaluate validator.rules validator.options document).mapError
          EvaluationError.contents := by
      rw [evaluate_map_of_rewords Rule.rewords_normal]
      cases FieldRules.evaluate validator.rules validator.options document with
      | ok report => rfl
      | error error => exact congrArg Except.error (Rule.rewords_normal.contents_mapRule error)
    have hskipped : skippedElements (validator.rules.map Rule.normal) validator.options document =
        skippedElements validator.rules validator.options document :=
      skippedElements_map_of_rewords Rule.rewords_normal validator.rules document
    simp only [evaluate, hskipped]
    exact congrArg (fun value => Logged.mk value _) hvalue

/-- A validator is rebuilt from its parts: its stored tokens and names to ignore, with the canonical
texts of its rules or with the texts that these were read from. With the latter it is built as it
is, so that it has the same text itself. -/
theorem create_of_parts [DoublePrinter] (rules flags ignores : List Bytes) (validator : Validator)
    (h : (create rules flags ignores).value = .ok validator) :
    (∃ again, (create (validator.rules.map Rule.canonical) validator.options.tokens
        validator.options.ignores).value = .ok again ∧ again.Rebuilds validator) ∧
    (create (validator.rules.map Rule.expression) validator.options.tokens
        validator.options.ignores).value = .ok validator ∧ validator.Rebuilds validator :=
  ⟨⟨_, ofTexts_of_canonical h, rebuilds_normal h⟩, ofTexts_of_expressions h, rebuilds_self h⟩

/-- A literal without an exact value, a string that begins with an operator byte, and a flag with
white space around and inside its name. -/
theorem create_of_parts_of_hard_texts :
    ∃ validator,
      (create [utf8 " x >= 1e-1", utf8 "name\t><b "] [utf8 " select: a  b\n",
      utf8 "missing-as-fail"]
        [utf8 "y"]).value = .ok validator ∧
      (∃ again, (create (validator.rules.map Rule.canonical) validator.options.tokens
        validator.options.ignores).value = .ok again ∧ again.Rebuilds validator) ∧
      (create (validator.rules.map Rule.expression) validator.options.tokens
        validator.options.ignores).value = .ok validator ∧ validator.Rebuilds validator := by
  obtain ⟨validator, hvalidator⟩ : ∃ validator, (create [utf8 " x >= 1e-1", utf8 "name\t><b "]
      [utf8 " select: a  b\n", utf8 "missing-as-fail"] [utf8 "y"]).value = .ok validator := ⟨_, rfl⟩
  exact ⟨validator, hvalidator, create_of_parts _ _ _ validator hvalidator⟩

end Validator

end FieldRules

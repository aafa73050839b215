import FieldRules.Proofs.Evaluation.Ignoring
import FieldRules.Proofs.Evaluation.Settings
import FieldRules.Proofs.Options.Tokens
import FieldRules.Validator.Lines

/-!
# Building validators

A validator has the rules that its texts are read as and the options that its flags set, of which
only the sets of tokens and names count.

* `ofTexts_eq_ok_iff`: when a validator is built, and which.
* `Options.sameSettings_ofTokens`: the same tokens and names, in any order and number, set the same.
* `Validator.Alike`: validators that evaluate every document alike do so with texts and lines.
* `create_of_same_sets`: flags and names as sets.
-/

namespace FieldRules

open FieldRules.Flag

/-! ### Flags and names as sets -/

/-- The same tokens and names to ignore, in any order and number, set the same. -/
theorem Options.sameSettings_ofTokens {tokens others ignores names : List Bytes}
    (htokens : ∀ token, token ∈ tokens ↔ token ∈ others)
    (hignores : ∀ name, name ∈ ignores ↔ name ∈ names) :
    ((ofTokens tokens).ignoring ignores).SameSettings ((ofTokens others).ignoring names) where
  missing := by simp only [ignoring, ofTokens, htokens]
  ignoreCase := by simp only [ignoring, ofTokens, htokens]
  countLabels := by simp only [ignoring, ofTokens, htokens]
  selected name := by simp only [ignoring, ofTokens, List.mem_filterMap, htokens]
  ignores := hignores

theorem Flag.consistent_congr {tokens others : List Bytes}
    (h : ∀ token, token ∈ tokens ↔ token ∈ others) :
    Consistent tokens ↔ Consistent others :=
  ⟨fun htokens => htokens.mono fun token => (h token).2, fun hothers => hothers.mono fun token =>
    (h token).1⟩

namespace Validator

/-! ### Construction -/

/-- A validator is built if its rules are read and the tokens of its flags are consistent; it has
these rules, and the options that the tokens set. -/
theorem ofTexts_eq_ok_iff {rules flags ignores : List Bytes} {validator : Validator} :
    ofTexts rules flags ignores = .ok validator ↔
      Rule.parseAll rules = .ok validator.rules ∧ Consistent (flags.map Bytes.trim) ∧
        validator.options = (Options.ofTokens (flags.map Bytes.trim)).ignoring ignores := by
  rw [ofTexts, bind_eq_ok_iff]
  simp only [bind_eq_ok_iff, Options.ofFlags_eq_ok_iff]
  constructor
  · rintro ⟨parsed, hparsed, options, ⟨hconsistent, rfl⟩, ⟨⟩⟩
    exact ⟨hparsed, hconsistent, rfl⟩
  · rintro ⟨hparsed, hconsistent, hoptions⟩
    obtain ⟨parsed, options⟩ := validator
    cases hoptions
    exact ⟨parsed, hparsed, _, ⟨hconsistent, rfl⟩, rfl⟩

/-! ### Validators that evaluate alike -/

/-- Holds of validators that evaluate every document alike. -/
def Alike [DoublePrinter] (first second : Validator) : Prop :=
  ∀ document, first.evaluate document = second.evaluate document

namespace Alike

variable {first second : Validator}

theorem evaluate_eq [DoublePrinter] (h : first.Alike second) (document : Json) :
    FieldRules.evaluate first.rules first.options document =
      FieldRules.evaluate second.rules second.options document :=
  congrArg Logged.value (h document)

theorem validate_eq [DoublePrinter] (h : first.Alike second) (document : Json) :
    first.validate document = second.validate document := by
  rw [validate, validate, h]

theorem evaluateRead_eq [DoublePrinter] (h : first.Alike second)
    (document : Except ReadFailure Json) :
    first.evaluateRead document = second.evaluateRead document := by
  cases document with
  | error failure => rfl
  | ok document => rw [evaluateRead, evaluateRead, h]

theorem validateEach_eq [DoublePrinter] (h : first.Alike second) (lines : List Line) :
    first.validateEach lines = second.validateEach lines := by
  induction lines with
  | nil => rfl
  | cons line lines ih => rw [validateEach, validateEach, h.evaluateRead_eq, ih]

theorem filterEach_eq [DoublePrinter] (h : first.Alike second) (invert : Bool) (lines : List Line) :
    first.filterEach invert lines = second.filterEach invert lines := by
  induction lines with
  | nil => rfl
  | cons line lines ih =>
    rw [filterEach, filterEach]
    cases line.document with
    | error failure => rfl
    | ok document => simp only [h document, ih]

end Alike

/-- Validators of the same rules evaluate alike if their options set the same. -/
theorem alike_of_sameSettings [DoublePrinter] {rules : List Rule} {first second : Options}
    (h : first.SameSettings second) :
    Alike ⟨rules, first⟩ ⟨rules, second⟩ := by
  intro document
  simp only [evaluate, h.evaluate_eq, h.skippedElements_eq]

/-- Flags and names to ignore are sets. With the same tokens among the trimmed flags and the same
names, whatever their order and number, a validator is built from both or from neither; and both
validators evaluate every document alike, down to what is logged, and so validate and filter
alike. -/
theorem create_of_same_sets [DoublePrinter] (rules flags others ignores names : List Bytes)
    (hflags : ∀ token, token ∈ flags.map Bytes.trim ↔ token ∈ others.map Bytes.trim)
    (hignores : ∀ name, name ∈ ignores ↔ name ∈ names) :
    ((∃ validator, (create rules flags ignores).value = .ok validator) ↔
      ∃ validator, (create rules others names).value = .ok validator) ∧
    ∀ first second, (create rules flags ignores).value = .ok first →
      (create rules others names).value = .ok second →
      (∀ document, first.evaluate document = second.evaluate document) ∧
      (∀ document, first.validate document = second.validate document) ∧
      (∀ text, first.validateLines text = second.validateLines text) ∧
      ∀ invert text, first.filterLines invert text = second.filterLines invert text := by
  simp only [value_create, ofTexts_eq_ok_iff]
  refine ⟨?_, ?_⟩
  · constructor
    · rintro ⟨validator, hrules, hconsistent, -⟩
      exact ⟨⟨validator.rules, (Options.ofTokens (others.map Bytes.trim)).ignoring names⟩, hrules,
        (consistent_congr hflags).1 hconsistent, rfl⟩
    · rintro ⟨validator, hrules, hconsistent, -⟩
      exact ⟨⟨validator.rules, (Options.ofTokens (flags.map Bytes.trim)).ignoring ignores⟩, hrules,
        (consistent_congr hflags).2 hconsistent, rfl⟩
  · rintro ⟨parsed, first⟩ ⟨reparsed, second⟩ ⟨hrules, -, hfirst⟩ ⟨hagain, -, hsecond⟩
    obtain rfl : parsed = reparsed := Except.ok.inj (hrules.symm.trans hagain)
    cases hfirst
    cases hsecond
    have halike : Alike ⟨parsed, _⟩ ⟨parsed, _⟩ :=
      alike_of_sameSettings (Options.sameSettings_ofTokens hflags hignores)
    exact ⟨halike, halike.validate_eq, fun text => halike.validateEach_eq (Line.ofText text),
      fun invert text => halike.filterEach_eq invert (Line.ofText text)⟩

/-- A flag given twice, in another order and with white space around it, and names in another
order. -/
theorem create_of_same_sets_of_repeated_flag :
    ∃ flags others ignores names first second,
      (∀ token, token ∈ flags.map Bytes.trim ↔ token ∈ others.map Bytes.trim) ∧
        (∀ name, name ∈ ignores ↔ name ∈ names) ∧
      (create [utf8 "n<3"] flags ignores).value = .ok first ∧
        (create [utf8 "n<3"] others names).value = .ok second ∧
      first.options ≠ second.options ∧ ∀ document,
        first.evaluate document = second.evaluate document := by
  have hrepeat (a b token : Bytes) : token ∈ [a, b] ↔ token ∈ [b, a, b] := by
    simp only [List.mem_cons, List.not_mem_nil, or_false]
    tauto
  have hflags : [utf8 "ignore-case", utf8 " select:a"].map Bytes.trim =
      [utf8 "ignore-case", utf8 "select:a"] := by
    decide
  have hothers : [utf8 "select:a", utf8 "ignore-case", utf8 "\tselect:a\n"].map Bytes.trim =
      [utf8 "select:a", utf8 "ignore-case", utf8 "select:a"] := by
    decide
  have htokens (token : Bytes) : token ∈ [utf8 "ignore-case", utf8 " select:a"].map Bytes.trim ↔
      token ∈ [utf8 "select:a", utf8 "ignore-case", utf8 "\tselect:a\n"].map Bytes.trim := by
    rw [hflags, hothers]
    exact hrepeat _ _ token
  have hnames (name : Bytes) : name ∈ [utf8 "x", utf8 "y"] ↔
      name ∈ [utf8 "y", utf8 "x", utf8 "y"] := hrepeat _ _ name
  have hsame := create_of_same_sets [utf8 "n<3"] _ _ _ _ htokens hnames
  obtain ⟨first, hfirst⟩ : ∃ first, ofTexts [utf8 "n<3"] [utf8 "ignore-case", utf8 " select:a"]
      [utf8 "x", utf8 "y"] = .ok first := ⟨_, rfl⟩
  obtain ⟨second, hsecond⟩ := hsame.1.1 ⟨first, hfirst⟩
  refine ⟨_, _, _, _, first, second, htokens, hnames, hfirst, hsecond, ?_,
    (hsame.2 first second hfirst hsecond).1⟩
  -- the validators differ in the tokens that they keep
  intro hoptions
  rw [(ofTexts_eq_ok_iff.1 hfirst).2.2, (ofTexts_eq_ok_iff.1 hsecond).2.2] at hoptions
  have hlength := congrArg (fun options => options.tokens.length) hoptions
  exact absurd hlength (by decide)

end Validator

end FieldRules

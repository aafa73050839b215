import FieldRules.Proofs.Configuration.Loading
import FieldRules.Proofs.Evaluation.FirstFault
import FieldRules.Proofs.Rule.OneLine
import FieldRules.Proofs.Text.Delivered
import FieldRules.Proofs.Validator.Rebuilding
import FieldRules.Proofs.Validator.Refusal

/-!
# Messages in one line

An error tells the text that it is about as that text is. A message is in one line, then, exactly if
that text is.

* `refusedText?`, `exists_refusedText`: the rule or flag that a refused validator has its error
  from.
* `mem_of_evaluate`: the rule that an element cannot be judged for is one of the validator.
* `mem_entries_filterLines`: what is logged while lines are filtered.
* `messages_oneLine_iff`: which messages are in one line.
* `not_messages_oneLine`: some are not.
-/

namespace FieldRules

open Bytes

/-- The rule at fault is one of those that were evaluated. -/
theorem mem_of_evaluate [DoublePrinter] {rules : List Rule} {options : Options} {document : Json}
    {error : EvaluationError} {rule : Rule} (h : evaluate rules options document = .error error)
    (hrule : error.fault.rule? = some rule) : rule ∈ rules := by
  obtain ⟨fault, index⟩ := error
  obtain ⟨-, element, -, -, -, -, hfault⟩ := evaluate_eq_error_iff.1 h
  have hmem (first : Rule) (hfirst : ComesFirst rules options element first) : first ∈ rules := by
    obtain ⟨before, _, after, rfl, -, rfl⟩ := hfirst
    simp
  revert hrule
  cases hfault with
  | notAnObject _ => exact nofun
  | unlabelled _ _ _ _ => exact nofun
  | fieldNotFound _ hfirst _ _ _ =>
    rintro ⟨⟩
    exact hmem _ hfirst
  | typeMismatch _ hfirst _ _ _ =>
    rintro ⟨⟩
    exact hmem _ hfirst

namespace Validator

variable {rules flags ignores : List Bytes} {validator : Validator}

/-! ### Refused validators -/

/-- The rule or the flag that an error is about. -/
def refusedText? (rules flags : List Bytes) (error : ParseError) : Option Bytes :=
  match error.fault with
  | .rule _ => rules[error.index]?
  | .flag _ => flags[error.index]?

/-- A refused validator has its error from one of its texts, and tells this one trimmed, for a
reason without a line feed. -/
theorem exists_refusedText {error : ParseError} (h : ofTexts rules flags ignores = .error error) :
    ∃ text, refusedText? rules flags error = some text ∧ error.expression = text.trim ∧
      error.fault.reason.OneLine := by
  rcases ofTexts_eq_error_iff.1 h with hrules | ⟨-, hflags⟩
  · obtain ⟨before, text, after, rfl, -, found, hfound, rfl⟩ := Rule.parseAll_eq_error_iff.1 hrules
    obtain ⟨fault, hfault, rfl⟩ := mapError_eq_error_iff.1 hfound
    exact ⟨text, by simp [refusedText?], rfl, (Rule.plain_of_ofTrimmed hfault).oneLine_reason⟩
  · obtain ⟨front, text, back, rfl, -, fault, hfault, rfl⟩ := Options.ofFlags_eq_error_iff.1 hflags
    exact ⟨text, by simp [refusedText?], rfl, oneLine_reason_of_refusal? hfault⟩

theorem mem_of_refusedText? {error : ParseError} {text : Bytes}
    (h : refusedText? rules flags error = some text) :
    text ∈ rules ∨ text ∈ flags := by
  unfold refusedText? at h
  split at h
  · exact Or.inl (List.mem_of_getElem? h)
  · exact Or.inr (List.mem_of_getElem? h)

/-- The message on a refused validator is in one line exactly if the text at fault is. -/
theorem exists_oneLine_describe_iff {error : ParseError}
    (h : ofTexts rules flags ignores = .error error) :
    ∃ text, refusedText? rules flags error = some text ∧
      (error.describe.OneLine ↔ text.trim.OneLine) := by
  obtain ⟨text, htext, hexpression, hreason⟩ := exists_refusedText h
  exact ⟨text, htext, by rw [ParseError.oneLine_describe_iff hreason, hexpression]⟩

theorem oneLine_constructionMessage (h : ofTexts rules flags ignores = .ok validator) :
    (constructionMessage rules flags ignores).OneLine := by
  have hwords : (utf8 "Parsed ").OneLine ∧ (utf8 " rules, ").OneLine ∧ (utf8 " flags, ").OneLine ∧
      (utf8 " ignores").OneLine := by decide
  simp only [constructionMessage, h, oneLine_append_iff, hwords, Numeral.oneLine_ofNat, and_self]

/-! ### Evaluations -/

/-- The message on an element that a validator cannot judge is in one line unless it is about a rule
with a line feed in its literal. -/
theorem oneLine_describe_iff [DoublePrinter] (h : ofTexts rules flags ignores = .ok validator)
    {document : Json} {error : EvaluationError}
    (herror : (validator.evaluate document).value = .error error) :
    error.describe.OneLine ↔ ∀ rule, error.fault.rule? = some rule → rule.operand.OneLine := by
  refine EvaluationError.oneLine_describe_iff fun rule hrule => ?_
  obtain ⟨text, -, htext⟩ := exists_parse_of_mem h (mem_of_evaluate herror hrule)
  exact ⟨text, htext⟩

/-- While lines are filtered it is logged which elements are skipped and why documents cannot be
evaluated. -/
theorem mem_entries_filterLines [DoublePrinter] {invert : Bool} {text : Bytes} {entry : Log.Entry}
    (h : entry ∈ (validator.filterLines invert text).entries) :
    (∃ index, entry.message = utf8 "Skipping element " ++ Numeral.ofNat index) ∨
      ∃ line ∈ Line.ofText text, ∃ document error, line.document = .ok document ∧
        (validator.evaluate document).value = .error error ∧
        entry.message = line.source ++ utf8 ": " ++ error.describe := by
  rw [filterLines] at h
  -- what a line makes is appended to what the lines behind it make, so that the induction is on any
  -- lines
  generalize Line.ofText text = lines at h ⊢
  induction lines with
  | nil => cases h
  | cons line lines ih =>
    rw [filterEach] at h
    cases hdocument : line.document with
    | error failure =>
      rw [hdocument] at h
      cases h
    | ok document =>
      rw [hdocument] at h
      simp only [Logged.entries_bind, Logged.entries_pure, List.append_nil, List.mem_append] at h
      rcases h with hskipped | hline | hlater
      · obtain ⟨index, -, rfl⟩ := List.mem_map.1 hskipped
        exact Or.inl ⟨index, rfl⟩
      · cases hvalue : (validator.evaluate document).value with
        | ok report =>
          rw [hvalue] at hline
          cases hline
        | error error =>
          rw [hvalue] at hline
          obtain rfl := List.mem_singleton.1 hline
          exact Or.inr ⟨line, List.mem_cons_self .., document, error, hdocument, hvalue, rfl⟩
      · refine (ih hlater).imp_right ?_
        rintro ⟨other, hother, hrest⟩
        exact ⟨other, List.mem_cons_of_mem _ hother, hrest⟩

theorem oneLine_message_iff {line : Line} {error : EvaluationError} :
    (line.source ++ utf8 ": " ++ error.describe).OneLine ↔ error.describe.OneLine := by
  have hwords : (utf8 "line ").OneLine ∧ (utf8 ": ").OneLine := by decide
  simp only [Line.source, oneLine_append_iff, hwords, Numeral.oneLine_ofNat, true_and]

/-- A message that is logged while lines are filtered is in one line unless it tells an error whose
message is not. -/
theorem exists_error_of_not_oneLine [DoublePrinter] {invert : Bool} {text : Bytes}
    {entry : Log.Entry} (h : entry ∈ (validator.filterLines invert text).entries)
    (hnot : ¬ entry.message.OneLine) :
    ∃ line ∈ Line.ofText text, ∃ document error, line.document = .ok document ∧
      (validator.evaluate document).value = .error error ∧ ¬ error.describe.OneLine ∧
      entry.message = line.source ++ utf8 ": " ++ error.describe := by
  rcases mem_entries_filterLines h with ⟨index, hmessage⟩ |
      ⟨line, hline, document, error, hdocument, herror, hmessage⟩
  · refine absurd ?_ hnot
    rw [hmessage, oneLine_append_iff]
    exact ⟨by decide, Numeral.oneLine_ofNat index⟩
  · rw [hmessage, oneLine_message_iff] at hnot
    exact ⟨line, hline, document, error, hdocument, herror, hnot, hmessage⟩

/-! ### Texts in one line -/

/-- A validator of rules in one line each has no literal with a line feed. -/
theorem oneLine_operand_of_mem (h : ofTexts rules flags ignores = .ok validator)
    (hrules : ∀ text ∈ rules, text.trim.OneLine) {rule : Rule} (hrule : rule ∈ validator.rules) :
    rule.operand.OneLine := by
  obtain ⟨text, htext, hparse⟩ := exists_parse_of_mem h hrule
  exact Rule.oneLine_operand hparse (hrules text htext)

theorem oneLine_of_loadRules {fs : FileSystem} {path : Bytes} {texts : List Bytes}
    (h : (fs.loadRules path).value = .ok texts) {text : Bytes} (htext : text ∈ texts) :
    text.trim.OneLine := by
  rw [FileSystem.value_loadRules] at h
  obtain ⟨content, -, rfl⟩ := map_eq_ok_iff.1 h
  rw [Bytes.filledLines, ← Line.map_text_numbered 1, ← Line.ofText_eq_numbered] at htext
  obtain ⟨line, hline, rfl⟩ := List.mem_map.1 htext
  have hdelivered := Line.delivered_of_mem_ofText hline
  rw [hdelivered.trim_eq]
  exact hdelivered.lineFeed_not_mem

/-- Which messages are in one line. A refused validator has its error from one of its rules or
flags, and the message, which is logged, is in one line exactly if this text is without the white
space at its ends. The message on an element that cannot be judged is in one line exactly if it is
not about a rule whose literal is a string with a line feed, and such a rule was read from one of
the texts. While lines are filtered, only the message of such an error is not in one line. If all
rules and flags are in one line each, then so is all that is logged and told about them, and the
rules of a file are. -/
theorem messages_oneLine_iff [DoublePrinter] (rules flags ignores : List Bytes) :
    (∀ error, (create rules flags ignores).value = .error error →
      (create rules flags ignores).entries = [⟨.debug, error.describe⟩] ∧
      ∃ text, refusedText? rules flags error = some text ∧
        (error.describe.OneLine ↔ text.trim.OneLine)) ∧
    (∀ validator, (create rules flags ignores).value = .ok validator →
      (∀ entry ∈ (create rules flags ignores).entries, entry.message.OneLine) ∧
      (∀ document error, (validator.evaluate document).value = .error error →
        (error.describe.OneLine ↔ ∀ rule, error.fault.rule? = some rule → rule.operand.OneLine) ∧
        ∀ rule, error.fault.rule? = some rule → ∃ text ∈ rules, Rule.parse text = .ok rule) ∧
      ∀ invert text, ∀ entry ∈ (validator.filterLines invert text).entries,
        ¬ entry.message.OneLine →
        ∃ line ∈ Line.ofText text, ∃ document error, line.document = .ok document ∧
          (validator.evaluate document).value = .error error ∧ ¬ error.describe.OneLine ∧
          entry.message = line.source ++ utf8 ": " ++ error.describe) ∧
    ((∀ text ∈ rules, text.trim.OneLine) → (∀ text ∈ flags, text.trim.OneLine) →
      (∀ entry ∈ (create rules flags ignores).entries, entry.message.OneLine) ∧
      ∀ validator, (create rules flags ignores).value = .ok validator →
        (∀ document error, (validator.evaluate document).value = .error error →
          error.describe.OneLine) ∧
        ∀ invert text, ∀ entry ∈ (validator.filterLines invert text).entries,
          entry.message.OneLine) ∧
    ∀ (fs : FileSystem) path texts, (fs.loadRules path).value = .ok texts → ∀ text ∈ texts,
      text.trim.OneLine := by
  simp only [value_create]
  have hcreated (validator : Validator) (h : ofTexts rules flags ignores = .ok validator) :
      ∀ entry ∈ (create rules flags ignores).entries, entry.message.OneLine :=
    List.forall_mem_singleton.2 (oneLine_constructionMessage h)
  have hrefused (error : ParseError) (h : ofTexts rules flags ignores = .error error) :
      (create rules flags ignores).entries = [⟨.debug, error.describe⟩] := by
    rw [create_of_error h]
  refine ⟨fun error herror => ⟨hrefused error herror, exists_oneLine_describe_iff herror⟩,
    fun validator hvalidator => ⟨hcreated validator hvalidator, ?_, ?_⟩,
    fun hrules hflags => ⟨?_, fun validator hvalidator => ?_⟩, fun fs path texts h text =>
      oneLine_of_loadRules h⟩
  · exact fun document error herror => ⟨oneLine_describe_iff hvalidator herror,
      fun rule hrule => exists_parse_of_mem hvalidator (mem_of_evaluate herror hrule)⟩
  · exact fun invert text entry hentry => exists_error_of_not_oneLine hentry
  · cases hvalidator : ofTexts rules flags ignores with
    | ok validator => exact hcreated validator hvalidator
    | error error =>
      obtain ⟨text, htext, hline⟩ := exists_oneLine_describe_iff hvalidator
      rw [hrefused error hvalidator, List.forall_mem_singleton, hline]
      exact (mem_of_refusedText? htext).elim (hrules text) (hflags text)
  · have hdescribe (document : Json) (error : EvaluationError)
        (herror : (validator.evaluate document).value = .error error) :
        error.describe.OneLine :=
      (oneLine_describe_iff hvalidator herror).2 fun rule hrule =>
        oneLine_operand_of_mem hvalidator hrules (mem_of_evaluate herror hrule)
    refine ⟨hdescribe, fun invert text entry hentry => ?_⟩
    by_contra hnot
    obtain ⟨_, -, document, error, -, herror, hline, -⟩ := exists_error_of_not_oneLine hentry hnot
    exact hline (hdescribe document error herror)

/-- The refused rule has a line feed in its middle. The accepted one has it in front of its
operator, which its canonical text does not tell. -/
theorem messages_oneLine_iff_of_line_feeds :
    (∃ error : ParseError, (create [utf8 "a==1", utf8 " a\nb "] [] []).value = .error error ∧
      error.index = 1 ∧ ¬ error.describe.OneLine) ∧
    (∃ validator error, (create [utf8 "a\n<b"] [] []).value = .ok validator ∧
      (validator.evaluate (.object [(utf8 "a", .integer 1)])).value = .error error ∧
        error.describe.OneLine) ∧
    ∀ entry ∈ (create [utf8 "a=1\n"] [utf8 "\n"] []).entries, entry.message.OneLine := by
  refine ⟨?_, ?_, ?_⟩
  · obtain ⟨error, herror, hindex, hfault⟩ : ∃ error : ParseError,
        (create [utf8 "a==1", utf8 " a\nb "] [] []).value = .error error ∧ error.index = 1 ∧
          error.fault = .rule (.unexpectedByte 0x62 2) := ⟨_, rfl, rfl, rfl⟩
    obtain ⟨-, text, htext, hline⟩ := (messages_oneLine_iff _ _ _).1 error herror
    rw [refusedText?, hfault, hindex] at htext
    cases htext
    exact ⟨error, herror, hindex, fun h => absurd (hline.1 h) (by decide)⟩
  · obtain ⟨rule, hrule⟩ : ∃ rule : Rule,
        rule = ⟨utf8 "a", .less, .string (utf8 "b"), utf8 "a\n<b"⟩ := ⟨_, rfl⟩
    have hvalidator : (create [utf8 "a\n<b"] [] []).value = .ok ⟨[rule], {}⟩ := by rw [hrule]; rfl
    have herror : (evaluate ⟨[rule], {}⟩ (.object [(utf8 "a", .integer 1)])).value =
        .error ⟨.typeMismatch rule .number, 0⟩ := by
      rw [hrule]
      rfl
    obtain ⟨-, htells, -⟩ := (messages_oneLine_iff _ _ _).2.1 _ hvalidator
    refine ⟨_, _, hvalidator, herror, (htells _ _ herror).1.2 ?_⟩
    rintro _ ⟨⟩ s hs
    rw [hrule] at hs
    cases hs
    decide
  · exact ((messages_oneLine_iff [utf8 "a=1\n"] [utf8 "\n"] []).2.2.1 (List.forall_mem_singleton.2
      (by decide))
      (List.forall_mem_singleton.2 (by decide))).1

/-- Not every message is in one line: neither that on a refused rule, nor that on an element that
cannot be judged. -/
theorem not_messages_oneLine :
    (∃ error : ParseError, (create [utf8 "a\nb"] [] []).value = .error error ∧
      ¬ error.describe.OneLine) ∧
    ∃ validator error, (create [utf8 "a<x\ny"] [] []).value = .ok validator ∧
      (validator.evaluate (.object [(utf8 "a", .integer 1)])).value = .error error ∧
        ¬ error.describe.OneLine :=
  ⟨⟨_, rfl, by decide⟩, _, _, rfl, rfl, by decide⟩

end Validator

end FieldRules

import FieldRules.Evaluation.Error
import FieldRules.Proofs.Options.Tokens
import FieldRules.Proofs.Rule.Literal
import FieldRules.Proofs.Rule.Grammar

/-!
# Rules and errors in one line

The text of a rule and the message of an error are put together of words of this library and of
parts that were read. None of the former has a line feed; here is which of the latter may have one.

* `Bytes.OneLine`: the texts without a line feed.
* `Literal.OneLine`, `Rule.oneLine_canonical_iff`: the canonical text of a rule has a line feed if
  its literal is a string with one, and not otherwise.
* `RuleFault.Plain`, `oneLine_reason_of_refusal?`: the reasons why rules and flags are refused have
  none.
* `ParseError.oneLine_describe_iff`, `EvaluationError.oneLine_describe_iff`: the messages of errors.
-/

namespace FieldRules

namespace Bytes

/-- Holds of a text without a line feed. -/
def OneLine (text : Bytes) : Prop :=
  Ascii.lineFeed ∉ text

instance (text : Bytes) :
    Decidable text.OneLine := inferInstanceAs (Decidable (Ascii.lineFeed ∉ text))

variable {s t : Bytes}

theorem oneLine_nil : OneLine [] := by
  simp [OneLine]

theorem oneLine_append_iff : (s ++ t).OneLine ↔ s.OneLine ∧ t.OneLine := by
  simp [OneLine]

theorem oneLine_cons_iff {b : UInt8} : OneLine (b :: s) ↔ b ≠ Ascii.lineFeed ∧ s.OneLine := by
  simp [OneLine, eq_comm]

theorem oneLine_of_not_isSpace (h : ∀ b ∈ s, Ascii.isSpace b = false) : s.OneLine := by
  intro hmem
  exact absurd (h _ hmem) (by decide)

end Bytes

open Bytes

/-! ### Numbers -/

theorem Numeral.IsDigits.oneLine {digits : Bytes} (h : Numeral.IsDigits digits) : digits.OneLine :=
  oneLine_of_not_isSpace fun b hb => isSpace_of_isDigit (h.isDigit b hb)

theorem Numeral.oneLine_ofNat (n : Nat) : (Numeral.ofNat n).OneLine :=
  (Numeral.isDigits_ofNat n).oneLine

theorem ExponentPart.WellFormed.oneLine_text {part : ExponentPart} (h : part.WellFormed) :
    part.text.OneLine := by
  have hmarker : part.marker ≠ Ascii.lineFeed := by
    rcases h.marker with hmarker | hmarker <;> rw [hmarker] <;> decide
  have hsign : part.sign.OneLine := by
    rcases h.sign with hsign | hsign | hsign <;> rw [hsign] <;> decide
  rw [ExponentPart.text, List.cons_append, oneLine_cons_iff, oneLine_append_iff]
  exact ⟨hmarker, hsign, h.digits.oneLine⟩

theorem NumberToken.WellFormed.oneLine_text {token : NumberToken} (h : token.WellFormed) :
    token.text.OneLine := by
  obtain ⟨negative, whole, fraction, exponent⟩ := token
  rw [NumberToken.text, oneLine_append_iff, oneLine_append_iff, oneLine_append_iff]
  refine ⟨⟨⟨?_, h.whole.oneLine⟩, ?_⟩, ?_⟩
  · cases negative with
    | false => exact oneLine_nil
    | true => exact oneLine_cons_iff.2 ⟨by decide, oneLine_nil⟩
  · cases fraction with
    | none => exact oneLine_nil
    | some digits => exact oneLine_cons_iff.2 ⟨by decide, (h.fraction digits rfl).oneLine⟩
  · cases exponent with
    | none => exact oneLine_nil
    | some part => exact (h.exponent part rfl).oneLine_text

/-! ### Rules -/

namespace Literal

/-- Holds of a literal that is no string with a line feed. -/
def OneLine (literal : Literal) : Prop :=
  ∀ s, literal = .string s → s.OneLine

theorem oneLine_text_of_isScalar {literal : Literal} (h : literal.isScalar = true) :
    literal.text.OneLine := by
  cases literal with
  | integer n =>
    rw [text, ← Json.text_integerToken]
    exact (Json.wellFormed_integerToken n.toInt).oneLine_text
  | double x =>
    cases x with
    | finite negative rank =>
      obtain ⟨token, hwellFormed, htext, -⟩ :=
        Layout.literal.exists_token_finite Binary64.readsBack_shortest negative rank
      rw [text, Binary64.literalText, ← htext]
      exact hwellFormed.oneLine_text
    | infinite _ => cases h
    | nan => cases h
  | bool b => cases b <;> decide
  | string s => cases h

/-- What a text stands for is written in one line unless it is a string with a line feed. -/
theorem oneLine_text_iff (source : Bytes) :
    (ofText source).text.OneLine ↔ (ofText source).OneLine := by
  rcases ofText_cases source with hscalar | hstring
  · refine iff_of_true (oneLine_text_of_isScalar hscalar) fun s hs => ?_
    rw [hs] at hscalar
    cases hscalar
  · rw [hstring]
    exact ⟨fun h s hs => by cases hs; exact h, fun h => h source rfl⟩

theorem oneLine_typeName (literal : Literal) : literal.typeName.OneLine := by
  cases literal <;> rw [typeName] <;> decide

end Literal

theorem Operator.oneLine_token (operator : Operator) : operator.token.OneLine := by
  cases operator <;> decide

theorem Json.Kind.oneLine_name (kind : Json.Kind) : kind.name.OneLine := by
  cases kind <;> decide

namespace Rule

variable {text : Bytes} {rule : Rule}

theorem oneLine_field (h : parse text = .ok rule) : rule.field.OneLine := by
  obtain ⟨parts, hparts, -, rfl⟩ := parse_eq_ok_iff.1 h
  exact oneLine_of_not_isSpace fun b hb =>
    Ascii.not_isSpace_of_isIdentifier (hparts.isIdentifier b hb)

theorem oneLine_operand_text_iff (h : parse text = .ok rule) :
    rule.operand.text.OneLine ↔ rule.operand.OneLine := by
  obtain ⟨parts, -, -, rfl⟩ := parse_eq_ok_iff.1 h
  exact Literal.oneLine_text_iff parts.literal

/-- A rule that was read is written in one line unless its literal is a string with a line feed. -/
theorem oneLine_canonical_iff (h : parse text = .ok rule) :
    rule.canonical.OneLine ↔ rule.operand.OneLine := by
  rw [canonical, oneLine_append_iff, oneLine_append_iff, oneLine_operand_text_iff h]
  exact and_iff_right ⟨oneLine_field h, rule.operator.oneLine_token⟩

theorem oneLine_operand (h : parse text = .ok rule) (hline : text.trim.OneLine) :
    rule.operand.OneLine := by
  obtain ⟨parts, -, htext, rfl⟩ := parse_eq_ok_iff.1 h
  have hliteral : parts.literal.OneLine := by
    simp only [← htext, Parts.text, oneLine_append_iff] at hline
    exact hline.2.2.2.2
  intro s hs
  rcases Literal.ofText_cases parts.literal with hscalar | hstring
  · rw [show Literal.ofText parts.literal = .string s from hs] at hscalar
    cases hscalar
  · cases hstring.symm.trans hs
    exact hliteral

end Rule

/-! ### Refused rules and flags -/

/-- Holds of a fault that names nothing but bytes that it is about: operator bytes, and in the place
of an operator any byte that is no white space. -/
def RuleFault.Plain : RuleFault → Prop
  | .unexpectedByte byte _ => Ascii.isSpace byte = false
  | .unknownOperator run => ∀ b ∈ run, Ascii.isOperator b = true
  | .separatedOperator _ byte => Ascii.isOperator byte = true
  | _ => True

namespace Rule

variable {text after : Bytes} {fault : RuleFault}

theorem plain_of_parseOperand {operator : Operator}
    (h : parseOperand operator after = .error fault) : fault.Plain := by
  unfold parseOperand at h
  dsimp only at h
  split at h
  · split_ifs at h with hslip
    cases h
    exact (Bool.and_eq_true_iff.1 hslip).1
  · cases h
    trivial

theorem plain_of_ofTrimmed (h : ofTrimmed text = .error fault) : fault.Plain := by
  unfold ofTrimmed at h
  dsimp only at h
  split at h
  · cases h
    split_ifs <;> trivial
  · next b tail hrest =>
    split_ifs at h
    · cases h
      -- the white space in front of this byte has been dropped
      exact stops_cons.1 (hrest ▸ stops_dropWhile _ _)
    · cases h
      trivial
    · split at h
      · cases h
        exact fun b hb => List.mem_takeWhile_imp hb
      · rcases bind_eq_error_iff.1 h with hoperand | ⟨operand, -, hrule⟩
        · exact plain_of_parseOperand hoperand
        · cases hrule

end Rule

theorem RuleFault.Plain.oneLine_reason {fault : RuleFault} (h : fault.Plain) :
    (ParseFault.rule fault).reason.OneLine := by
  have hoperator {b : UInt8} (hb : Ascii.isOperator b = true) : Ascii.isSpace b = false :=
    Ascii.not_isSpace_of_isOperator hb
  have hbyte {b : UInt8} (hb : Ascii.isSpace b = false) : OneLine [b] :=
    oneLine_of_not_isSpace (List.forall_mem_singleton.2 hb)
  cases fault with
  | unexpectedByte byte position =>
    simp only [ParseFault.reason, oneLine_append_iff]
    exact ⟨⟨⟨by decide, hbyte h⟩, by decide⟩, Numeral.oneLine_ofNat position⟩
  | unknownOperator run =>
    simp only [ParseFault.reason, oneLine_append_iff]
    exact ⟨⟨by decide, oneLine_of_not_isSpace fun b hb => hoperator (h b hb)⟩, by decide⟩
  | missingOperand operator => cases operator <;> decide
  | separatedOperator operator byte =>
    simp only [ParseFault.reason, oneLine_append_iff]
    exact ⟨⟨⟨⟨by decide, operator.oneLine_token⟩, by decide⟩, hbyte (hoperator h)⟩, by decide⟩
  | _ => decide

theorem oneLine_reason_of_ofToken {token : Bytes} {fault : FlagFault}
    (h : Flag.ofToken token = .error fault) :
    (ParseFault.flag fault).reason.OneLine := by
  unfold Flag.ofToken at h
  split at h <;> split_ifs at h <;> cases h <;> decide

theorem oneLine_reason_of_refusal? {before : List Bytes} {token : Bytes} {fault : FlagFault}
    (h : Flag.refusal? before token = some fault) : (ParseFault.flag fault).reason.OneLine := by
  unfold Flag.refusal? at h
  split at h
  · next hread =>
    cases h
    exact oneLine_reason_of_ofToken hread
  · split_ifs at h
    cases h
    decide
  · split_ifs at h
    cases h
    decide
  · cases h

/-! ### Messages -/

/-- The message on a refused rule or flag is in one line if the text and the reason that it tells
are. -/
theorem ParseErrorKind.oneLine_message_iff {kind : Option ParseErrorKind} {index : Nat}
    {expression reason : Bytes} :
    (message kind index expression reason).OneLine ↔ expression.OneLine ∧ reason.OneLine := by
  have hsubject : (subject kind).OneLine := by
    rcases kind with _ | kind
    · decide
    · cases kind <;> decide
  have hwords : (utf8 "Invalid ").OneLine ∧ (utf8 " #").OneLine ∧ (utf8 " \"").OneLine ∧
      (utf8 "\": ").OneLine := by
    decide
  simp only [message, oneLine_append_iff, hsubject, hwords, Numeral.oneLine_ofNat,
    true_and, and_true]

theorem ParseError.oneLine_describe_iff {error : ParseError} (h : error.fault.reason.OneLine) :
    error.describe.OneLine ↔ error.expression.OneLine := by
  rw [describe, ParseErrorKind.oneLine_message_iff, and_iff_left h]

/-- The message on an element that cannot be judged for a rule that was read is in one line unless
the literal of the rule is a string with a line feed; the message on any other element is. -/
theorem EvaluationError.oneLine_describe_iff {error : EvaluationError}
    (h : ∀ rule, error.fault.rule? = some rule → ∃ text, Rule.parse text = .ok rule) :
    error.describe.OneLine ↔ ∀ rule, error.fault.rule? = some rule → rule.operand.OneLine := by
  obtain ⟨fault, element⟩ := error
  have helement : (Numeral.ofNat element).OneLine := Numeral.oneLine_ofNat element
  have hrule : (utf8 "Rule \"").OneLine ∧ (utf8 "\" is not applicable to element ").OneLine ∧
      (utf8 ": ").OneLine := by
    decide
  cases fault with
  | fieldNotFound rule =>
    obtain ⟨text, htext⟩ := h rule rfl
    have hwords : (utf8 ": field \"").OneLine ∧ (utf8 "\" not found").OneLine := by decide
    simp only [describe, EvaluationFault.kind, EvaluationErrorKind.message,
      EvaluationFault.ruleText,
      EvaluationFault.field, EvaluationFault.rule?, Option.elim, oneLine_append_iff,
      helement, hrule, hwords,
      Rule.oneLine_canonical_iff htext, Rule.oneLine_field htext, true_and, and_true,
      Option.some.injEq, forall_eq']
  | typeMismatch rule found =>
    obtain ⟨text, htext⟩ := h rule rfl
    have hwords : (utf8 "cannot order ").OneLine ∧ (utf8 " \"").OneLine ∧
        (utf8 "\" against ").OneLine ∧
        (utf8 " ").OneLine := by decide
    simp only [describe, EvaluationFault.kind, EvaluationErrorKind.message,
      EvaluationFault.ruleText,
      EvaluationFault.detail, EvaluationFault.rule?, Option.elim, oneLine_append_iff,
      helement, hrule, hwords, Rule.oneLine_canonical_iff htext, Rule.oneLine_field htext,
      Rule.oneLine_operand_text_iff htext,
      rule.operand.oneLine_typeName, found.oneLine_name, true_and, and_true, and_self,
      Option.some.injEq, forall_eq']
  | notAnObject found =>
    refine iff_of_true ?_ nofun
    simp only [describe, EvaluationFault.kind, EvaluationErrorKind.message, EvaluationFault.detail,
      oneLine_append_iff]
    exact ⟨⟨⟨by decide, helement⟩, by decide⟩, found.oneLine_name⟩
  | unlabelled flaw =>
    refine iff_of_true ?_ nofun
    simp only [describe, EvaluationFault.kind, EvaluationErrorKind.message, EvaluationFault.detail,
      oneLine_append_iff]
    exact ⟨⟨⟨by decide, helement⟩, by decide⟩, by cases flaw <;> decide⟩

end FieldRules

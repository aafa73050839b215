import FieldRules.Options.Flag
import FieldRules.Proofs.Sequence
import Mathlib.Data.List.Basic
import Mathlib.Tactic.SplitIfs

/-!
# Flags as a whole

A list of flags is read token by token, each against the options that the tokens in front of it have
set. What comes of it is told here without that order.

* `Options.ofTokens`: the options that tokens set.
* `Flag.Consistent`: the lists of tokens that are accepted; by `Consistent.mono` their order and
  number do not count.
* `Flag.refusal?`, `addToken_ofTokens`: one more token behind others, and why it is refused.
* `ofFlags_eq_ok_iff`: a list of flags is read exactly if its tokens are consistent, and as the
  options that they set.
* `ofFlags_eq_error_iff`: otherwise the error is about the first token that is refused behind those
  in front of it.
-/

namespace FieldRules

namespace Flag

/-! ### Tokens -/

/-- The token of a flag that has only one. -/
def token? : Flag → Option Bytes
  | .missingAsPass => some missingAsPassToken
  | .missingAsFail => some missingAsFailToken
  | .ignoreCase => some ignoreCaseToken
  | .countLabels => some countLabelsToken
  | .select _ => none

/-- A flag that has only one token is read from that token, and from no other. -/
theorem ofToken_eq_ok_iff {flag : Flag} {text : Bytes} (h : flag.token? = some text)
    {token : Bytes} :
    ofToken token = .ok flag ↔ token = text := by
  constructor
  · intro hread
    unfold ofToken at hread
    split at hread
    · split_ifs at hread
      cases hread
      cases h
    · split_ifs at hread <;> cases hread <;> cases h <;> assumption
  · rintro rfl
    cases flag <;> cases h <;> decide

/-- The name that a token selects elements by. -/
def selectedName? (token : Bytes) : Option Bytes :=
  match ofToken token with
  | .ok (.select name) => some name
  | _ => none

variable {before tokens others : List Bytes}

/-- The token of a flag is among some tokens and one more if it is among the ones or the one more is
read as the flag. -/
theorem mem_append_singleton_iff (flag : Flag) {text : Bytes} (h : flag.token? = some text)
    (before : List Bytes) (token : Bytes) :
    text ∈ before ++ [token] ↔ text ∈ before ∨ ofToken token = .ok flag := by
  rw [List.mem_append, List.mem_singleton, ofToken_eq_ok_iff h, eq_comm]

/-! ### Consistent tokens -/

/-- Holds of tokens that all are flags, the two for absent fields not both among them. -/
structure Consistent (tokens : List Bytes) : Prop where
  isFlag : ∀ token ∈ tokens, ∃ flag, ofToken token = .ok flag
  compatible : ¬ (missingAsPassToken ∈ tokens ∧ missingAsFailToken ∈ tokens)

theorem consistent_nil : Consistent [] :=
  ⟨by simp, by simp⟩

/-- Some of several consistent tokens are consistent, in any order and number. -/
theorem Consistent.mono (h : Consistent others) (hsubset : tokens ⊆ others) :
    Consistent tokens where
  isFlag token htoken := h.isFlag token (hsubset htoken)
  compatible hboth := h.compatible ⟨hsubset hboth.1, hsubset hboth.2⟩

theorem consistent_append_singleton_iff (h : Consistent before) (token : Bytes) :
    Consistent (before ++ [token]) ↔ (∃ flag, ofToken token = .ok flag) ∧
      ¬ (missingAsPassToken ∈ before ++ [token] ∧ missingAsFailToken ∈ before ++ [token]) := by
  constructor
  · exact fun hall => ⟨hall.isFlag token (by simp), hall.compatible⟩
  · rintro ⟨hflag, hcompatible⟩
    refine ⟨?_, hcompatible⟩
    rw [List.forall_mem_append, List.forall_mem_singleton]
    exact ⟨h.isFlag, hflag⟩

/-- Why a token is refused behind others, if it is. -/
def refusal? (before : List Bytes) (token : Bytes) : Option FlagFault :=
  match ofToken token with
  | .error fault => some fault
  | .ok .missingAsPass => if missingAsFailToken ∈
      before then some (.conflict missingAsFailToken) else none
  | .ok .missingAsFail => if missingAsPassToken ∈
      before then some (.conflict missingAsPassToken) else none
  | .ok _ => none

/-- Behind consistent tokens one is accepted exactly if it is consistent with them. -/
theorem refusal?_eq_none_iff (h : Consistent before) (token : Bytes) :
    refusal? before token = none ↔ Consistent (before ++ [token]) := by
  have hpass := mem_append_singleton_iff .missingAsPass rfl before token
  have hfail := mem_append_singleton_iff .missingAsFail rfl before token
  have hcompatible := h.compatible
  rw [consistent_append_singleton_iff h, hpass, hfail, refusal?]
  cases hread : ofToken token with
  | error fault => simp
  | ok flag =>
    cases flag with
    | missingAsPass => simp
    | missingAsFail => simp
    | _ => simpa using hcompatible

end Flag

namespace Options

open FieldRules.Flag

variable {before : List Bytes}

/-- The options that tokens set. -/
def ofTokens (tokens : List Bytes) : Options where
  missing := if missingAsPassToken ∈ tokens then .pass else if missingAsFailToken ∈
    tokens then .fail else .raise
  ignoreCase := decide (ignoreCaseToken ∈ tokens)
  countLabels := decide (countLabelsToken ∈ tokens)
  selected := tokens.filterMap selectedName?
  tokens := tokens

theorem ofTokens_append_singleton (before : List Bytes) (token : Bytes) :
    ofTokens (before ++ [token]) = {
      missing := if missingAsPassToken ∈ before ∨ ofToken token = .ok .missingAsPass then .pass
        else if missingAsFailToken ∈ before ∨ ofToken token = .ok .missingAsFail then .fail
        else .raise
      ignoreCase := decide (ignoreCaseToken ∈ before ∨ ofToken token = .ok .ignoreCase)
      countLabels := decide (countLabelsToken ∈ before ∨ ofToken token = .ok .countLabels)
      selected := before.filterMap selectedName? ++ (selectedName? token).toList
      tokens := before ++ [token] } := by
  have hselected : (before ++ [token]).filterMap selectedName? =
      before.filterMap selectedName? ++ (selectedName? token).toList := by
    rw [List.filterMap_append]
    cases hname : selectedName? token <;> simp [hname]
  have hpass := mem_append_singleton_iff .missingAsPass rfl before token
  have hfail := mem_append_singleton_iff .missingAsFail rfl before token
  have hcase := mem_append_singleton_iff .ignoreCase rfl before token
  have hcount := mem_append_singleton_iff .countLabels rfl before token
  simp only [ofTokens, hpass, hfail, hcase, hcount, hselected]

theorem addToken_of_ok (options : Options) {token : Bytes} {flag : Flag}
    (hread : ofToken token = .ok flag) :
    options.addToken token =
      (options.setFlag flag).map fun changed => { changed with tokens :=
        changed.tokens ++ [token] } := by
  rw [addToken, hread]
  show (options.setFlag flag >>= _) = _
  cases options.setFlag flag <;> rfl

/-- A token behind consistent ones is refused, or sets what it sets among them. -/
theorem addToken_ofTokens (h : Consistent before) (token : Bytes) :
    (ofTokens before).addToken token =
      match refusal? before token with
      | some fault => .error fault
      | none => .ok (ofTokens (before ++ [token])) := by
  have hcompatible := h.compatible
  rw [ofTokens_append_singleton, refusal?]
  cases hread : ofToken token with
  | error fault => rw [addToken, hread]; rfl
  | ok flag =>
    rw [addToken_of_ok _ hread, selectedName?, hread]
    -- only the flags for absent fields look at the tokens in front of them
    cases flag with
    | missingAsPass =>
      by_cases hfail : missingAsFailToken ∈ before
      · have hpass : missingAsPassToken ∉ before := fun hpass => hcompatible ⟨hpass, hfail⟩
        simp [setFlag, ofTokens, hfail, hpass, Except.map]
      · by_cases hpass : missingAsPassToken ∈ before <;>
          simp [setFlag, ofTokens, hfail, hpass, Except.map]
    | missingAsFail =>
      by_cases hpass : missingAsPassToken ∈ before
      · simp [setFlag, ofTokens, hpass, Except.map]
      · by_cases hfail : missingAsFailToken ∈ before <;>
          simp [setFlag, ofTokens, hpass, hfail, Except.map]
    | ignoreCase => simp [setFlag, ofTokens, Except.map]
    | countLabels => simp [setFlag, ofTokens, Except.map]
    | select name => simp [setFlag, ofTokens, Except.map]

/-- Flags behind consistent tokens are accepted exactly if their tokens are consistent with
these. -/
theorem addFlags_eq_ok_iff {options : Options} {index : Nat} {flags : List Bytes}
    (h : Consistent before) :
    (ofTokens before).addFlags index flags = .ok options ↔
      Consistent (before ++ flags.map Bytes.trim) ∧
        options = ofTokens (before ++ flags.map Bytes.trim) := by
  induction flags generalizing before index with
  | nil => simp [addFlags, h, eq_comm]
  | cons text flags ih =>
    have hsplit : before ++ (text :: flags).map Bytes.trim = before ++ [text.trim] ++
        flags.map Bytes.trim := by simp
    rw [addFlags, addToken_ofTokens h, hsplit]
    cases hrefusal : refusal? before text.trim with
    | none => exact ih ((refusal?_eq_none_iff h _).1 hrefusal)
    | some fault =>
      -- what is refused makes the whole list inconsistent
      have hnot : ¬ Consistent (before ++ [text.trim] ++ flags.map Bytes.trim) := by
        intro hall
        have hnone := (refusal?_eq_none_iff h text.trim).2 (hall.mono (List.subset_append_left ..))
        rw [hrefusal] at hnone
        cases hnone
      simp only [hnot, false_and, iff_false]
      rintro ⟨⟩

/-- Flags behind consistent tokens have the error of the first that is refused behind these and the
flags in front of it. -/
theorem addFlags_eq_error_iff {error : ParseError} {index : Nat} {flags : List Bytes}
    (h : Consistent before) :
    (ofTokens before).addFlags index flags = .error error ↔
      ∃ front text back, flags = front ++ text :: back ∧
        Consistent (before ++ front.map Bytes.trim) ∧
        ∃ fault, refusal? (before ++ front.map Bytes.trim) text.trim = some fault ∧
          error = ⟨.flag fault, text.trim, index + front.length⟩ := by
  induction flags generalizing before index with
  | nil => simp [addFlags]
  | cons text flags ih =>
    have hsplit (front : List Bytes) :
        before ++ (text :: front).map Bytes.trim = before ++ [text.trim] ++
          front.map Bytes.trim := by simp
    rw [addFlags, addToken_ofTokens h, exists_split_cons_iff]
    simp only [hsplit, List.map_nil, List.append_nil, List.length_nil, Nat.add_zero,
      List.length_cons, ← Nat.add_assoc, Nat.add_right_comm index _ 1]
    cases hrefusal : refusal? before text.trim with
    | none =>
      have hnext : Consistent (before ++ [text.trim]) := (refusal?_eq_none_iff h _).1 hrefusal
      refine (ih hnext).trans (or_iff_right ?_).symm
      rintro ⟨-, _, ⟨⟩, -⟩
    | some fault =>
      -- no flag behind this one is the first that is refused
      have hlater : ¬ ∃ front other back, flags = front ++ other :: back ∧
          Consistent (before ++ [text.trim] ++ front.map Bytes.trim) ∧
            ∃ found, refusal? (before ++ [text.trim] ++ front.map Bytes.trim) other.trim =
              some found ∧
              error = ⟨.flag found, other.trim, index + 1 + front.length⟩ := by
        rintro ⟨front, _, _, -, hall, -⟩
        have hnone := (refusal?_eq_none_iff h text.trim).2 (hall.mono (List.subset_append_left ..))
        rw [hrefusal] at hnone
        cases hnone
      rw [or_iff_left hlater]
      constructor
      · rintro ⟨⟩
        exact ⟨h, fault, rfl, rfl⟩
      · rintro ⟨-, _, ⟨⟩, rfl⟩
        rfl

/-- Flags are accepted exactly if their tokens are consistent, and set what these set. -/
theorem ofFlags_eq_ok_iff {options : Options} {flags : List Bytes} :
    ofFlags flags = .ok options ↔
      Consistent (flags.map Bytes.trim) ∧ options = ofTokens (flags.map Bytes.trim) :=
  addFlags_eq_ok_iff consistent_nil

/-- Flags are refused with the error of the first whose token is refused behind those in front of
it. -/
theorem ofFlags_eq_error_iff {error : ParseError} {flags : List Bytes} :
    ofFlags flags = .error error ↔
      ∃ front text back, flags = front ++ text :: back ∧ Consistent (front.map Bytes.trim) ∧
        ∃ fault, refusal? (front.map Bytes.trim) text.trim = some fault ∧
          error = ⟨.flag fault, text.trim, front.length⟩ := by
  have hfrom := @addFlags_eq_error_iff [] error 0 flags consistent_nil
  simp only [List.nil_append, Nat.zero_add] at hfrom
  exact hfrom

end Options

end FieldRules

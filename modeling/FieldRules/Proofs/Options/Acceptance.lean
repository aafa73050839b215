import FieldRules.Proofs.Options.Tokens
import Mathlib.Order.Bounds.Defs

/-!
# Flags that are accepted

Which lists of flags are accepted, in words of their tokens alone, what they set, and where a list
is refused that is not accepted.

* `Flag.IsToken`, `exists_ofToken_iff`: the tokens that are flags.
* `Flag.Acceptable`, `consistent_iff_acceptable`: the lists of tokens that are accepted.
* `Flag.selections`, `filterMap_selectedName?`: the names that tokens select elements by.
* `Flag.Conflicts`, `kind_of_refusal?`: the tokens that are refused for one in front of them.
* `ofFlags_exact`: all of it for a list of flags.
-/

namespace FieldRules

namespace Flag

variable {token : Bytes} {before tokens : List Bytes}

/-! ### Tokens -/

/-- The tokens of the flags that have only one. -/
def plainTokens : List Bytes :=
  [missingAsPassToken, missingAsFailToken, ignoreCaseToken, countLabelsToken]

/-- Holds of the tokens that are flags: four words, and what selects elements by a name that is not
blank. -/
def IsToken (token : Bytes) : Prop :=
  token ∈ plainTokens ∨ ∃ name, token = selectStart ++ name ∧ name.trim ≠ []

/-- None of the four words begins as a selection does. -/
theorem dropPrefix?_plain : ∀ token ∈ plainTokens, Bytes.dropPrefix? selectStart token = none := by
  decide

theorem ofToken_of_selection {name : Bytes} (h : Bytes.dropPrefix? selectStart token = some name) :
    ofToken token = if name.trim.isEmpty then .error .nothingSelected else
      .ok (.select name.trim) := by
  rw [ofToken, h]

theorem exists_ofToken_iff_mem (h : Bytes.dropPrefix? selectStart token = none) :
    (∃ flag, ofToken token = .ok flag) ↔ token ∈ plainTokens := by
  rw [ofToken, h, plainTokens]
  dsimp only
  split_ifs <;> simp_all

theorem exists_ofToken_iff : (∃ flag, ofToken token = .ok flag) ↔ IsToken token := by
  cases hname : Bytes.dropPrefix? selectStart token with
  | none =>
    have hselection : ¬ ∃ name, token = selectStart ++ name ∧ name.trim ≠ [] := by
      rintro ⟨name, rfl, -⟩
      simp at hname
    rw [exists_ofToken_iff_mem hname, IsToken, or_iff_left hselection]
  | some name =>
    have hplain : token ∉ plainTokens := by
      intro hmem
      simp [dropPrefix?_plain token hmem] at hname
    have htoken := Bytes.dropPrefix?_eq_some_iff.1 hname
    rw [ofToken_of_selection hname, IsToken, or_iff_right hplain, htoken]
    by_cases hblank : name.trim = [] <;> simp [hblank]

/-! ### Lists of tokens -/

/-- Holds of tokens that are accepted together: all of them are flags, and not both for absent
fields are among them. -/
structure Acceptable (tokens : List Bytes) : Prop where
  isToken : ∀ token ∈ tokens, IsToken token
  compatible : ¬ (missingAsPassToken ∈ tokens ∧ missingAsFailToken ∈ tokens)

theorem consistent_iff_acceptable : Consistent tokens ↔ Acceptable tokens := by
  constructor
  · exact fun h => ⟨fun token htoken => exists_ofToken_iff.1 (h.isFlag token htoken), h.compatible⟩
  · exact fun h => ⟨fun token htoken => exists_ofToken_iff.2 (h.isToken token htoken), h.compatible⟩

/-- What follows the start of the selections among some tokens, without white space at the ends. -/
def selections (tokens : List Bytes) : List Bytes :=
  (tokens.filterMap (Bytes.dropPrefix? selectStart)).map Bytes.trim

theorem selectedName?_eq (h : IsToken token) :
    selectedName? token = (Bytes.dropPrefix? selectStart token).map Bytes.trim := by
  cases hname : Bytes.dropPrefix? selectStart token with
  | none =>
    rw [selectedName?, ofToken, hname]
    dsimp only
    split_ifs <;> rfl
  | some name =>
    obtain ⟨flag, hflag⟩ := exists_ofToken_iff.2 h
    rw [ofToken_of_selection hname] at hflag
    split_ifs at hflag with hblank
    rw [selectedName?, ofToken_of_selection hname, if_neg hblank]
    rfl

theorem filterMap_selectedName? (h : ∀ token ∈ tokens, IsToken token) :
    tokens.filterMap selectedName? = selections tokens := by
  rw [selections, List.map_filterMap]
  exact List.filterMap_congr fun token htoken => selectedName?_eq (h token htoken)

/-! ### Refused tokens -/

/-- Holds of a token for absent fields if the other one is in front of it. -/
def Conflicts (before : List Bytes) (token : Bytes) : Prop :=
  token = missingAsPassToken ∧ missingAsFailToken ∈ before ∨ token = missingAsFailToken ∧
    missingAsPassToken ∈ before

theorem kind_of_ofToken {fault : FlagFault} (h : ofToken token = .error fault) :
    (ParseFault.flag fault).kind = .unrecognizedFlag := by
  unfold ofToken at h
  split at h <;> split_ifs at h <;> cases h <;> rfl

/-- A token that is refused is in conflict with one in front of it, or is no flag. -/
theorem kind_of_refusal? {fault : FlagFault} (h : refusal? before token = some fault) :
    Conflicts before token ∧ (ParseFault.flag fault).kind = .conflictingFlags ∨
      ¬ Conflicts before token ∧ (ParseFault.flag fault).kind = .unrecognizedFlag := by
  have hpass : token = missingAsPassToken ↔ ofToken token = .ok .missingAsPass :=
    (ofToken_eq_ok_iff rfl).symm
  have hfail : token = missingAsFailToken ↔ ofToken token = .ok .missingAsFail :=
    (ofToken_eq_ok_iff rfl).symm
  rw [Conflicts, hpass, hfail]
  unfold refusal? at h
  cases hread : ofToken token with
  | error found =>
    rw [hread] at h
    cases h
    exact Or.inr ⟨by simp, kind_of_ofToken hread⟩
  | ok flag =>
    rw [hread] at h
    cases flag with
    | missingAsPass =>
      dsimp only at h
      split_ifs at h with hother
      cases h
      exact Or.inl ⟨Or.inl ⟨rfl, hother⟩, rfl⟩
    | missingAsFail =>
      dsimp only at h
      split_ifs at h with hother
      cases h
      exact Or.inl ⟨Or.inr ⟨rfl, hother⟩, rfl⟩
    | _ => cases h

end Flag

namespace Options

open FieldRules.Flag

variable {tokens : List Bytes}

/-- What acceptable tokens say about absent fields: the one of the two words that occurs decides. -/
theorem missing_ofTokens (h : Acceptable tokens) :
    ((ofTokens tokens).missing = .pass ↔ missingAsPassToken ∈ tokens) ∧
      ((ofTokens tokens).missing = .fail ↔ missingAsFailToken ∈ tokens) ∧
      ((ofTokens tokens).missing = .raise ↔ missingAsPassToken ∉ tokens ∧
        missingAsFailToken ∉ tokens) := by
  have hcompatible := h.compatible
  by_cases hpass : missingAsPassToken ∈ tokens
  · have hfail : missingAsFailToken ∉ tokens := fun hfail => hcompatible ⟨hpass, hfail⟩
    simp [ofTokens, hpass, hfail]
  · by_cases hfail : missingAsFailToken ∈ tokens <;> simp [ofTokens, hpass, hfail]

/-- The first flag that is refused has the least place up to which the flags are not acceptable. -/
theorem isLeast_of_refused {front back : List Bytes} {text : Bytes}
    (hfront : Consistent (front.map Bytes.trim))
    (htext : ¬ Consistent (front.map Bytes.trim ++ [text.trim])) :
    IsLeast {i | i < (front ++ text :: back).length ∧
      ¬ Acceptable (((front ++ text :: back).take (i + 1)).map Bytes.trim)} front.length := by
  simp only [← consistent_iff_acceptable]
  constructor
  · have htake : (front ++ text :: back).take (front.length + 1) = front ++ [text] :=
      List.take_length_add_append 1
    refine ⟨by simp, ?_⟩
    rw [htake, List.map_append]
    exact htext
  · rintro i ⟨-, hi⟩
    by_contra hlt
    have htake : (front ++ text :: back).take (i + 1) = front.take (i + 1) :=
      List.take_append_of_le_length (by omega)
    rw [htake] at hi
    exact hi (hfront.mono (List.map_subset _ (List.take_subset _ _)))

/-- A list of flags is accepted exactly if its tokens, without the white space at their ends, are
acceptable: each is one of four words or selects elements by a name that is not blank, and not both
words for absent fields are among them. What is set then depends on the words that occur; the names
and the tokens are kept in order. A list that is refused has the place of the first flag that is not
acceptable with those in front of it, with the token there. The flag is in conflict if it is one of
the words for absent fields with the other in front of it, and else is not recognized. -/
theorem ofFlags_exact (flags : List Bytes) :
    ((∃ options, ofFlags flags = .ok options) ↔ Acceptable (flags.map Bytes.trim)) ∧
    (∀ options, ofFlags flags = .ok options →
      (options.missing = .pass ↔ missingAsPassToken ∈ flags.map Bytes.trim) ∧
      (options.missing = .fail ↔ missingAsFailToken ∈ flags.map Bytes.trim) ∧
      (options.missing = .raise ↔
        missingAsPassToken ∉ flags.map Bytes.trim ∧ missingAsFailToken ∉ flags.map Bytes.trim) ∧
      (options.ignoreCase = true ↔ ignoreCaseToken ∈ flags.map Bytes.trim) ∧
      (options.countLabels = true ↔ countLabelsToken ∈ flags.map Bytes.trim) ∧
      options.selected = selections (flags.map Bytes.trim) ∧
        options.tokens = flags.map Bytes.trim) ∧
    ∀ error, ofFlags flags = .error error →
      IsLeast {i | i < flags.length ∧
        ¬ Acceptable ((flags.take (i + 1)).map Bytes.trim)} error.index ∧
      (flags.map Bytes.trim)[error.index]? = some error.expression ∧
      (error.fault.kind = .conflictingFlags ↔
        Conflicts ((flags.take error.index).map Bytes.trim) error.expression) ∧
      (¬ Conflicts ((flags.take error.index).map Bytes.trim) error.expression →
        error.fault.kind = .unrecognizedFlag) := by
  refine ⟨?_, ?_, ?_⟩
  · rw [← consistent_iff_acceptable]
    constructor
    · rintro ⟨options, hoptions⟩
      exact (ofFlags_eq_ok_iff.1 hoptions).1
    · exact fun h => ⟨_, ofFlags_eq_ok_iff.2 ⟨h, rfl⟩⟩
  · intro options hoptions
    obtain ⟨hconsistent, rfl⟩ := ofFlags_eq_ok_iff.1 hoptions
    have hacceptable := consistent_iff_acceptable.1 hconsistent
    obtain ⟨hpass, hfail, hraise⟩ := missing_ofTokens hacceptable
    exact ⟨hpass, hfail, hraise, decide_eq_true_iff, decide_eq_true_iff,
      filterMap_selectedName? hacceptable.isToken, rfl⟩
  · intro error herror
    obtain ⟨front, text, back, rfl, hfront, fault, hrefusal, rfl⟩ := ofFlags_eq_error_iff.1 herror
    have hrefused : ¬ Consistent (front.map Bytes.trim ++ [text.trim]) := by
      rw [← refusal?_eq_none_iff hfront, hrefusal]
      simp
    have htake : (front ++ text :: back).take front.length = front := List.take_left
    have hkind := kind_of_refusal? hrefusal
    refine ⟨isLeast_of_refused hfront hrefused, by simp, ?_, ?_⟩
    · rw [htake]
      rcases hkind with ⟨hconflict, hkind⟩ | ⟨hconflict, hkind⟩ <;> simp [hconflict, hkind]
    · rw [htake]
      intro hno
      exact (hkind.resolve_left fun h => hno h.1).2

/-- A flag is in conflict with one in front of it, and the flag behind it, which selects nothing,
has no part in that. -/
theorem ofFlags_exact_of_conflict :
    (∃ options,
      ofFlags [utf8 " missing-as-fail", utf8 "select: a\t", utf8 "select:b"] = .ok options ∧
      options.missing = .fail ∧ options.selected = [utf8 "a", utf8 "b"]) ∧
    ∃ error : ParseError,
      ofFlags [utf8 "missing-as-fail ", utf8 "select: a", utf8 "\nmissing-as-pass",
        utf8 "select: "] = .error error ∧
      error.index = 2 ∧ error.expression = missingAsPassToken ∧
        error.fault.kind = .conflictingFlags := by
  obtain ⟨options, hoptions⟩ : ∃ options,
      ofFlags [utf8 " missing-as-fail", utf8 "select: a\t", utf8 "select:b"] = .ok options :=
    ⟨_, rfl⟩
  obtain ⟨error, herror, hindex⟩ : ∃ error : ParseError,
      ofFlags [utf8 "missing-as-fail ", utf8 "select: a", utf8 "\nmissing-as-pass",
        utf8 "select: "] = .error error ∧
        error.index = 2 := ⟨_, rfl, rfl⟩
  obtain ⟨-, hfail, -, -, -, hselected, -⟩ := (ofFlags_exact _).2.1 options hoptions
  obtain ⟨-, hexpression, hkind, -⟩ := (ofFlags_exact _).2.2 error herror
  rw [hindex] at hexpression hkind
  have htoken : some error.expression = some missingAsPassToken :=
    hexpression.symm.trans (by decide)
  obtain htoken := Option.some.inj htoken
  refine ⟨⟨options, hoptions, hfail.2 (by decide), hselected.trans (by decide)⟩, error, herror,
    hindex, htoken, hkind.2 ?_⟩
  exact Or.inl ⟨htoken, by decide⟩

end Options

end FieldRules

import FieldRules.Proofs.Rule.RoundTrip
import FieldRules.Proofs.Sequence
import Mathlib.Data.List.Forall2

/-!
# Reading rules again

A rule can be read again from its canonical text, and from the text that it was read from.

* `Rule.normal`: a rule as its canonical text is read.
* `parse_canonical`, `parse_expression`: a rule that was read, read again.
* `parseAll_eq_ok_iff`: a list of rules is read if each of them is.
* `parseAll_eq_error_iff`: otherwise the error is that of the first rule that is refused, with its
  place.
* `parseAll_canonical`, `parseAll_expression`: a list of rules that was read, read again.
-/

namespace FieldRules.Rule

variable {text : Bytes} {rule : Rule} {texts : List Bytes} {rules : List Rule}

/-- A rule as its canonical text is read. -/
def normal (rule : Rule) : Rule :=
  { rule with expression := rule.canonical }

theorem parse_canonical (h : parse text = .ok rule) : parse rule.canonical = .ok rule.normal := by
  obtain ⟨⟨field, operator, operand, expression⟩, hagain, hmeaning, hoperand, -, -, hexpression⟩ :=
    readsBack_of_parse h
  simp only [sameMeaning, Bool.and_eq_true, beq_iff_eq] at hmeaning
  obtain ⟨⟨hfield, hoperator⟩, -⟩ := hmeaning
  rw [hagain, normal, ← hexpression, ← hfield, ← hoperator, ← hoperand]

/-- Only the text without white space at its ends is kept, so that it is read alike. -/
theorem parse_expression (h : parse text = .ok rule) : parse rule.expression = .ok rule := by
  obtain ⟨parts, hparts, htext, rfl⟩ := parse_eq_ok_iff.1 h
  have htrim : parts.text.trim = parts.text := Bytes.trim_of_trimmed hparts.trimmed_text
  exact parse_eq_ok_iff.2 ⟨parts, hparts, htrim.symm, rfl⟩

/-- A rule that was read means the same as when it is read from its canonical text. -/
theorem sameMeaning_normal (h : parse text = .ok rule) : rule.normal.sameMeaning rule = true := by
  obtain ⟨again, hagain, hmeaning, -⟩ := readsBack_of_parse h
  rw [parse_canonical h] at hagain
  cases hagain
  exact hmeaning

/-- A rule that was read means the same as itself: its literal is a number, if it is a number at
all. -/
theorem sameMeaning_self (h : parse text = .ok rule) : rule.sameMeaning rule = true :=
  sameMeaning_normal h

/-! ### Lists -/

theorem parseFrom_eq_ok_iff {index : Nat} :
    parseFrom index texts = .ok rules ↔
      List.Forall₂ (fun text rule => parse text = .ok rule) texts rules := by
  induction texts generalizing index rules with
  | nil => simp [parseFrom, eq_comm]
  | cons text texts ih =>
    rw [parseFrom, bind_eq_ok_iff, List.forall₂_cons_left_iff]
    simp only [bind_eq_ok_iff, mapError_eq_ok_iff, ih]
    constructor
    · rintro ⟨rule, hrule, rest, hrest, ⟨⟩⟩
      exact ⟨rule, rest, hrule, hrest, rfl⟩
    · rintro ⟨rule, rest, hrule, hrest, rfl⟩
      exact ⟨rule, hrule, rest, hrest, rfl⟩

/-- A list of rules is read if each of them is. -/
theorem parseAll_eq_ok_iff :
    parseAll texts = .ok rules ↔
      List.Forall₂ (fun text rule => parse text = .ok rule) texts rules :=
  parseFrom_eq_ok_iff

theorem parseFrom_cons_of_error {error : ParseError} (h : parse text = .error error) (index : Nat)
    (texts : List Bytes) :
    parseFrom index (text :: texts) = .error { error with index } := by
  rw [parseFrom, h]
  rfl

theorem parseFrom_cons_of_ok (h : parse text = .ok rule) (index : Nat) (texts : List Bytes) :
    parseFrom index (text :: texts) = (parseFrom (index + 1) texts).map (rule :: ·) := by
  rw [parseFrom, h]
  show (parseFrom (index + 1) texts >>= _) = _
  cases parseFrom (index + 1) texts <;> rfl

theorem parseFrom_eq_error_iff {error : ParseError} {index : Nat} :
    parseFrom index texts = .error error ↔
      ∃ before text after, texts = before ++ text :: after ∧
        (∀ other ∈ before, ∃ rule, parse other = .ok rule) ∧
        ∃ found, parse text = .error found ∧
          error = { found with index := index + before.length } := by
  induction texts generalizing index with
  | nil => simp [parseFrom]
  | cons text texts ih =>
    rw [exists_split_cons_iff]
    simp only [List.forall_mem_cons, List.length_cons, ← Nat.add_assoc,
      Nat.add_right_comm index _ 1]
    cases hparse : parse text with
    | error found =>
      rw [parseFrom_cons_of_error hparse]
      simp [eq_comm]
    | ok rule =>
      rw [parseFrom_cons_of_ok hparse, map_eq_error_iff, ih]
      simp

/-- A list of rules is refused with the error of the first rule that is refused, and with the place
of that rule. -/
theorem parseAll_eq_error_iff {error : ParseError} :
    parseAll texts = .error error ↔
      ∃ before text after, texts = before ++ text :: after ∧
        (∀ other ∈ before, ∃ rule, parse other = .ok rule) ∧
        ∃ found, parse text = .error found ∧ error = { found with index := before.length } := by
  have hfrom := @parseFrom_eq_error_iff texts error 0
  simp only [Nat.zero_add] at hfrom
  exact hfrom

theorem exists_parse_of_parseAll (h : parseAll texts = .ok rules) (hrule : rule ∈ rules) :
    ∃ text ∈ texts, parse text = .ok rule := by
  replace h := parseAll_eq_ok_iff.1 h
  induction h with
  | nil => cases hrule
  | cons hparse _ ih =>
    rcases List.mem_cons.1 hrule with rfl | hrule
    · exact ⟨_, List.mem_cons_self .., hparse⟩
    · obtain ⟨text, htext, hread⟩ := ih hrule
      exact ⟨text, List.mem_cons_of_mem _ htext, hread⟩

/-- A list of rules that was read is read again from texts that each rule is read again from. -/
theorem parseAll_map {rewrite : Rule → Bytes} {f : Rule → Rule}
    (hread : ∀ text rule, parse text = .ok rule → parse (rewrite rule) = .ok (f rule))
    (h : parseAll texts = .ok rules) :
    parseAll (rules.map rewrite) = .ok (rules.map f) := by
  rw [parseAll_eq_ok_iff, List.forall₂_map_left_iff, List.forall₂_map_right_iff, List.forall₂_same]
  intro rule hrule
  obtain ⟨text, -, htext⟩ := exists_parse_of_parseAll h hrule
  exact hread text rule htext

theorem parseAll_canonical (h : parseAll texts = .ok rules) :
    parseAll (rules.map canonical) = .ok (rules.map normal) :=
  parseAll_map (fun _ _ => parse_canonical) h

theorem parseAll_expression (h : parseAll texts = .ok rules) :
    parseAll (rules.map expression) = .ok rules := by
  have hagain := parseAll_map (fun _ _ => parse_expression) h
  rwa [List.map_id'] at hagain

end FieldRules.Rule

import FieldRules.Proofs.Json.Enclosure
import FieldRules.Proofs.Rule.RoundTrip

/-!
# Literals that are taken as they stand

A literal is a string unless the reader of documents takes it for a number or a boolean. The reader
passes over a byte order mark, blanks and all that follows a NUL byte, so that a literal may be
taken for one that is none.

* `Literal.OfWord`: the literals that the texts of numbers and booleans stand for.
* `ofText_of_encloses`, `ofText_eq_string_iff`: what any text stands for.
* `parse_verbatim_iff`: when the operand of a rule is its literal as it stands.
* `not_verbatim_before_nul`: a literal that is neither number nor boolean and not taken as it
  stands.
-/

namespace FieldRules

namespace Literal

variable {text word : Bytes} {literal : Literal}

/-- The texts of numbers and booleans, with the literals that they stand for. -/
inductive OfWord : Bytes → Literal → Prop
  | integer {word : Bytes} {n : Int} (hword : Json.Word word (.integer n)) :
      OfWord word (.ofInteger n)
  | double {word : Bytes} {x : Binary64} (hword : Json.Word word (.double x)) :
      OfWord word (.double x)
  | bool {word : Bytes} {b : Bool} (hword : Json.Word word (.bool b)) : OfWord word (.bool b)

theorem OfWord.ne_string (h : OfWord word literal) (s : Bytes) : literal ≠ .string s := by
  cases h with
  | integer _ =>
    unfold ofInteger
    split_ifs <;> simp
  | double _ => simp
  | bool _ => simp

theorem ofText_of_encloses (hword : OfWord word literal) (h : Json.Encloses text word) :
    ofText text = literal := by
  cases hword with
  | integer hword => rw [ofText, Json.read_of_encloses hword h]
  | double hword => rw [ofText, Json.read_of_encloses hword h]
  | bool hword => rw [ofText, Json.read_of_encloses hword h]

/-- A text stands for a number or a boolean that it encloses, or for itself. -/
theorem exists_word_or_eq_string (text : Bytes) :
    (∃ word, OfWord word (ofText text) ∧ Json.Encloses text word) ∨ ofText text = .string text := by
  unfold ofText
  split
  · next n hread =>
    obtain ⟨word, hword, h⟩ := (Json.read_eq_ok_iff (Or.inl rfl)).1 hread
    exact Or.inl ⟨word, .integer hword, h⟩
  · next x hread =>
    obtain ⟨word, hword, h⟩ := (Json.read_eq_ok_iff (Or.inl rfl)).1 hread
    exact Or.inl ⟨word, .double hword, h⟩
  · next b hread =>
    obtain ⟨word, hword, h⟩ := (Json.read_eq_ok_iff (Or.inr rfl)).1 hread
    exact Or.inl ⟨word, .bool hword, h⟩
  · exact Or.inr rfl

/-- A text stands for itself exactly if it encloses neither a number nor a boolean. -/
theorem ofText_eq_string_iff :
    ofText text = .string text ↔ ¬ ∃ word literal, OfWord word literal ∧
      Json.Encloses text word := by
  constructor
  · rintro hstring ⟨word, literal, hword, h⟩
    exact hword.ne_string text ((ofText_of_encloses hword h).symm.trans hstring)
  · intro hnone
    rcases exists_word_or_eq_string text with ⟨word, hword, h⟩ | hstring
    · exact absurd ⟨word, _, hword, h⟩ hnone
    · exact hstring

/-- Of a trimmed text without byte order mark and NUL byte nothing is dropped. -/
theorem ofText_of_trimmed (htrimmed : Bytes.Trimmed text) (hmark : ¬ Json.byteOrderMark <+: text)
    (hnul : (0 : UInt8) ∉ text) : ofText text = .string text ∨ OfWord text (ofText text) := by
  rcases exists_word_or_eq_string text with ⟨word, hword, h⟩ | hstring
  · rw [← h.eq_of_trimmed htrimmed hmark hnul] at hword
    exact Or.inr hword
  · exact Or.inl hstring

end Literal

namespace Rule

/-- The operand of a rule is its literal as it stands exactly if no number and no boolean can be
found in the literal by passing over a byte order mark, blanks and all that follows a NUL byte; else
it is this number or boolean. In a literal without byte order mark and NUL byte there is nothing to
pass over: then a number or a boolean is the whole of it. -/
theorem parse_verbatim_iff {parts : Parts} {text : Bytes} (h : parts.WellFormed)
    (htext : parts.text = text.trim) :
    ∃ operand, parse text = .ok ⟨parts.field, parts.operator, operand, text.trim⟩ ∧
      (operand = .string parts.literal ↔
        ¬ ∃ word literal, Literal.OfWord word literal ∧ Json.Encloses parts.literal word) ∧
      (∀ word literal, Literal.OfWord word literal → Json.Encloses parts.literal word →
        operand = literal) ∧
      (¬ Json.byteOrderMark <+: parts.literal → (0 : UInt8) ∉ parts.literal →
        operand = .string parts.literal ∨ Literal.OfWord parts.literal operand) :=
  ⟨.ofText parts.literal, h.parse_eq htext, Literal.ofText_eq_string_iff, fun _ _ =>
    Literal.ofText_of_encloses,
    Literal.ofText_of_trimmed h.trimmed⟩

/-- A byte order mark in front of `true`, and a blank and a NUL byte behind a negative zero, are
passed over. -/
theorem parse_verbatim_iff_of_marked_words :
    parse (utf8 "a==\uFEFFtrue") = .ok ⟨utf8 "a", .equal, .bool true, utf8 "a==\uFEFFtrue"⟩ ∧
    parse (utf8 "a==-0 \x00;") = .ok ⟨utf8 "a", .equal, .integer 0, utf8 "a==-0 \x00;"⟩ := by
  have hparts {literal : Bytes} (hliteral : Upright literal) :
      (⟨utf8 "a", [], .equal, [], literal⟩ : Parts).WellFormed :=
    Parts.wellFormed_of_upright .equal (by decide) (List.all_eq_true.1 (by decide)) hliteral
  refine ⟨?_, ?_⟩
  · have hliteral : Upright (utf8 "\uFEFFtrue") := ⟨by decide, ⟨by decide, by decide⟩, by decide⟩
    obtain ⟨operand, hparse, -, hword, -⟩ :=
      parse_verbatim_iff (hparts hliteral) (by decide : _ = (utf8 "a==\uFEFFtrue").trim)
    obtain rfl := hword (utf8 "true") (.bool true) (.bool .isTrue)
      ⟨Json.byteOrderMark, [], [], [], by decide, Or.inr rfl, nofun, nofun, nofun⟩
    exact hparse
  · have hliteral : Upright (utf8 "-0 \x00;") := ⟨by decide, ⟨by decide, by decide⟩, by decide⟩
    obtain ⟨operand, hparse, -, hword, -⟩ :=
      parse_verbatim_iff (hparts hliteral) (by decide : _ = (utf8 "a==-0 \x00;").trim)
    have hzero : NumberToken.WellFormed ⟨true, utf8 "0", none, none⟩ :=
      NumberToken.wellFormed_of_scan (by decide : NumberToken.scan (utf8 "-0") = some (_, []))
    have hnul : ∀ b ∈ (utf8 "\x00;").head?, b = 0 := by
      rintro b ⟨⟩
      rfl
    obtain rfl := hword _ _ (.integer (.number hzero (by decide : _ = some (Json.integer 0))))
      ⟨[], [], utf8 " ",
        utf8 "\x00;", by decide, Or.inl rfl, nofun, List.all_eq_true.1 (by decide), hnul⟩
    exact hparse

/-- Not every literal that is neither a number nor a boolean is taken as it stands: of `5`, a NUL
byte and `abc` the number is left. -/
theorem not_verbatim_before_nul :
    (∃ parts : Parts, parts.WellFormed ∧ parts.text = (utf8 "a==5\x00abc").trim ∧
      parts.literal = utf8 "5\x00abc") ∧
    (¬ ∃ token : NumberToken, token.WellFormed ∧ token.text = utf8 "5\x00abc") ∧
    utf8 "5\x00abc" ≠ utf8 "true" ∧ utf8 "5\x00abc" ≠ utf8 "false" ∧
    parse (utf8 "a==5\x00abc") = .ok ⟨utf8 "a", .equal, .integer 5, utf8 "a==5\x00abc"⟩ := by
  refine ⟨⟨⟨utf8 "a", [], .equal, [], utf8 "5\x00abc"⟩, ?_, by decide, rfl⟩,
    ?_, by decide, by decide, by decide⟩
  · exact Parts.wellFormed_of_upright .equal (by decide) (List.all_eq_true.1 (by decide))
      ⟨by decide, ⟨by decide, by decide⟩, by decide⟩
  · rintro ⟨token, htoken⟩
    have hscan := NumberToken.scan_eq_some_nil_iff.2 htoken
    have hrest : NumberToken.scan (utf8 "5\x00abc") =
        some (⟨false, utf8 "5", none, none⟩, utf8 "\x00abc") := by decide
    rw [hrest] at hscan
    cases hscan

end Rule

end FieldRules

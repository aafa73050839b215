import FieldRules.Proofs.Json.NumberText
import FieldRules.Proofs.Sequence

/-!
# Words

The tokens that stand for a value by themselves: numbers and booleans.

* `Word`: the texts of numbers and booleans, with the values that they stand for.
* `Word.readValue_append`: a word is read as its value, in front of any text that does not go on
  with a number.
* `exists_token_of_readNumber` and `readWord_eq_ok`: what has been read was such a text.
-/

namespace FieldRules.Json

variable {word s rest : Bytes} {value found : Json}

/-- The texts of numbers and booleans, with the values that they stand for. -/
inductive Word : Bytes → Json → Prop
  | number {token : NumberToken} {value : Json} (hwellFormed : token.WellFormed)
    (hvalue : token.value = some value) : Word token.text value
  | isTrue : Word (utf8 "true") (.bool true)
  | isFalse : Word (utf8 "false") (.bool false)

/-! ### Reading a word -/

theorem Word.exists_begins (h : Word word value) : ∃ b tail, word = b :: tail ∧ Begins b := by
  cases h with
  | number hwellFormed hvalue =>
    obtain ⟨b, tail, htext, hb⟩ := hwellFormed.exists_starts
    exact ⟨b, tail, htext, Or.inl hb⟩
  | isTrue => exact ⟨0x74, _, rfl, by decide⟩
  | isFalse => exact ⟨0x66, _, rfl, by decide⟩

/-- A word in front of a text is read as its value, if the text cannot go on with a number. -/
theorem Word.readValue_append (h : Word word value) (hrest : NumberToken.Ends rest) (fuel : Nat) :
    readValue (fuel + 1) (word ++ rest) = .ok (value, rest) := by
  cases h with
  | number hwellFormed hvalue =>
    obtain ⟨b, tail, htext, hb⟩ := hwellFormed.exists_starts
    rw [← readNumber_append hwellFormed hvalue hrest, htext, List.cons_append,
      readValue_of_starts hb]
  | isTrue =>
    rw [readValue]
    rfl
  | isFalse =>
    rw [readValue]
    rfl

/-! ### What has been read -/

theorem exists_token_of_readNumber (h : readNumber s = .ok (value, rest)) :
    ∃ token : NumberToken, token.WellFormed ∧ token.value = some value ∧
      s = token.text ++ rest := by
  unfold readNumber at h
  split at h
  · cases h
  · next token _ hscan =>
    split at h
    · next found hvalue =>
      cases h
      exact ⟨token, NumberToken.wellFormed_of_scan hscan, hvalue,
        (NumberToken.scan_text hscan).symm⟩
    · cases h

theorem readWord_eq_ok (h : readWord word value s = .ok (found, rest)) :
    found = value ∧ s = word ++ rest := by
  unfold readWord at h
  split at h
  · next hdrop =>
    cases h
    exact ⟨rfl, Bytes.dropPrefix?_eq_some_iff.1 hdrop⟩
  · cases h

end FieldRules.Json

import FieldRules.Proofs.Json.Readable
import FieldRules.Proofs.Text.Trim

/-!
# Texts of a single word

What the reader passes over around a number or a boolean, and how that is told from the text.

* `Encloses`: a text that is a word but for what is passed over.
* `read_eq_ok_iff`: a text is read as a number or a boolean exactly if it encloses a word for it.
* `Encloses.eq_of_trimmed`: nothing is passed over in a trimmed text without byte order mark and NUL
  byte.
-/

namespace FieldRules.Json

open Bytes

variable {text word s : Bytes} {value : Json}

/-- Holds of a text that is a word, but for a byte order mark in front of it, blanks on both sides,
and whatever follows a NUL byte behind it. -/
def Encloses (text word : Bytes) : Prop :=
  ∃ mark before after rest : Bytes, text = mark ++ (before ++ (word ++ (after ++ rest))) ∧
    (mark = [] ∨ mark = byteOrderMark) ∧ (∀ b ∈ before, isBlank b = true) ∧
      (∀ b ∈ after, isBlank b = true) ∧
    ∀ b ∈ rest.head?, b = 0

/-! ### What is passed over -/

theorem skipBlanks_append (hs : ∀ b ∈ s, isBlank b = true) (rest : Bytes) :
    skipBlanks (s ++ rest) = skipBlanks rest :=
  List.dropWhile_append_of_pos hs

theorem exists_blanks (s : Bytes) :
    ∃ before, s = before ++ skipBlanks s ∧ ∀ b ∈ before, isBlank b = true :=
  ⟨s.takeWhile isBlank, List.takeWhile_append_dropWhile.symm, fun _ hb => List.mem_takeWhile_imp hb⟩

/-- A text is at its end if nothing but blanks is left in front of a NUL byte, or nothing but blanks
at all. -/
theorem isEnd_iff :
    isEnd s = true ↔
      ∃ after rest, s = after ++ rest ∧ (∀ b ∈ after, isBlank b = true) ∧
        ∀ b ∈ rest.head?, b = 0 := by
  unfold isEnd
  constructor
  · intro h
    obtain ⟨after, hs, hafter⟩ := exists_blanks s
    refine ⟨after, skipBlanks s, hs, hafter, ?_⟩
    intro b hb
    obtain ⟨tail, htail⟩ := List.head?_eq_some_iff.1 hb
    rw [htail] at h
    exact eq_of_beq h
  · rintro ⟨after, rest, rfl, hafter, hrest⟩
    rw [skipBlanks_append hafter]
    cases rest with
    | nil => rfl
    | cons b tail =>
      obtain rfl := hrest b rfl
      rfl

theorem eq_of_isBlank {b : UInt8} (h : isBlank b = true) :
    b = Ascii.tab ∨ b = Ascii.lineFeed ∨ b = Ascii.carriageReturn ∨ b = Ascii.space := by
  simpa [isBlank, or_assoc] using h

theorem isSpace_of_isBlank {b : UInt8} (h : isBlank b = true) : Ascii.isSpace b = true := by
  rcases eq_of_isBlank h with rfl | rfl | rfl | rfl <;> decide

theorem ends_of_isEnd (h : isEnd s = true) : NumberToken.Ends s := by
  obtain ⟨after, rest, rfl, hafter, hrest⟩ := isEnd_iff.1 h
  cases after with
  | nil =>
    intro b hb
    rw [hrest b hb]
    decide
  | cons c tail =>
    refine stops_cons.2 ?_
    rcases eq_of_isBlank (hafter c (List.mem_cons_self ..)) with rfl | rfl | rfl | rfl <;> decide

/-- A text is what is left of it behind a byte order mark, if it begins with one. -/
theorem exists_mark (text : Bytes) :
    ∃ mark, text = mark ++ skipByteOrderMark text ∧ (mark = [] ∨ mark = byteOrderMark) := by
  unfold skipByteOrderMark
  cases hdrop : dropPrefix? byteOrderMark text with
  | none => exact ⟨[], rfl, Or.inl rfl⟩
  | some rest => exact ⟨byteOrderMark, dropPrefix?_eq_some_iff.1 hdrop, Or.inr rfl⟩

theorem skipByteOrderMark_cons {b : UInt8} (hb : b ≠ 0xEF) (rest : Bytes) :
    skipByteOrderMark (b :: rest) = b :: rest := by
  simp [skipByteOrderMark, byteOrderMark, dropPrefix?, hb.symm]

/-- A byte order mark in front of blanks and a word is passed over; without one nothing is. -/
theorem skipByteOrderMark_append {mark before : Bytes} (hmark : mark = [] ∨ mark = byteOrderMark)
    (hbefore : ∀ b ∈ before, isBlank b = true) (hword : Word word value) (rest : Bytes) :
    skipByteOrderMark (mark ++ (before ++ (word ++ rest))) = before ++ (word ++ rest) := by
  rcases hmark with rfl | rfl
  · cases before with
    | nil =>
      obtain ⟨b, tail, rfl, hb⟩ := hword.exists_begins
      exact hb.skipByteOrderMark _
    | cons b tail =>
      refine skipByteOrderMark_cons ?_ _
      rintro rfl
      exact absurd (hbefore _ (List.mem_cons_self ..)) (by decide)
  · rw [skipByteOrderMark, dropPrefix?_append, Option.getD_some]

theorem readValue_skipBlanks (fuel : Nat) (s : Bytes) :
    readValue fuel (skipBlanks s) = readValue fuel s := by
  cases fuel with
  | zero => rfl
  | succ fuel =>
    have hblanks : skipBlanks (skipBlanks s) = skipBlanks s :=
      dropWhile_of_stops (stops_dropWhile _ _)
    rw [readValue, readValue, hblanks]

/-! ### Reading -/

/-- A text that encloses a word is read as its value. -/
theorem read_of_encloses (hword : Word word value) (h : Encloses text word) :
    read text = .ok value := by
  obtain ⟨mark, before, after, rest, rfl, hmark, hbefore, hafter, hrest⟩ := h
  have hend := isEnd_iff.2 ⟨after, rest, rfl, hafter, hrest⟩
  obtain ⟨b, tail, hb, hbegins⟩ := hword.exists_begins
  have hblanks : skipBlanks (before ++ (word ++ (after ++ rest))) = word ++ (after ++ rest) := by
    rw [skipBlanks_append hbefore, hb, List.cons_append, hbegins.skipBlanks]
  rw [read, skipByteOrderMark_append hmark hbefore hword]
  dsimp only
  rw [← readValue_skipBlanks, hblanks, hword.readValue_append (ends_of_isEnd hend)]
  exact if_pos hend

/-- A text is read as a number or a boolean exactly if it encloses a word for it. -/
theorem read_eq_ok_iff (hkind : value.kind = .number ∨ value.kind = .boolean) :
    read text = .ok value ↔ ∃ word, Word word value ∧ Encloses text word := by
  constructor
  · intro h
    obtain ⟨⟨found, left⟩, hfound, hend⟩ := bind_eq_ok_iff.1 h
    dsimp only at hend
    split_ifs at hend with hleft
    cases hend
    obtain ⟨mark, htext, hmark⟩ := exists_mark text
    obtain ⟨before, hbody, hbefore⟩ := exists_blanks (skipByteOrderMark text)
    obtain ⟨after, rest, rfl, hafter, hrest⟩ := isEnd_iff.1 hleft
    cases readAs_of_readValue hfound with
    | word hword hs =>
      refine ⟨_, hword, mark, before, after, rest, ?_, hmark, hbefore, hafter, hrest⟩
      rw [← hs, ← hbody, ← htext]
    | _ => rcases hkind with hkind | hkind <;> cases hkind
  · rintro ⟨word, hword, h⟩
    exact read_of_encloses hword h

/-! ### Texts without anything to pass over -/

/-- A trimmed text without byte order mark and NUL byte encloses no other word than itself. -/
theorem Encloses.eq_of_trimmed (h : Encloses text word) (htrimmed : Trimmed text)
    (hmark : ¬ byteOrderMark <+: text) (hnul : (0 : UInt8) ∉ text) : text = word := by
  obtain ⟨mark, before, after, rest, rfl, rfl | rfl, hbefore, hafter, hrest⟩ := h
  · obtain rfl : rest = [] := by
      cases rest with
      | nil => rfl
      | cons b tail =>
        obtain rfl := hrest b rfl
        exact absurd (by simp) hnul
    obtain rfl : before = [] := by
      have hstart : Stops Ascii.isSpace (before ++ (word ++ (after ++ []))) := htrimmed.start
      exact hstart.of_append.eq_nil fun b hb => isSpace_of_isBlank (hbefore b hb)
    obtain rfl : after = [] := by
      have htext : Trimmed (word ++ after) := by simpa using htrimmed
      have hfinish := stops_reverse_of_append htext.finish
      exact List.reverse_eq_nil_iff.1
        (hfinish.eq_nil fun b hb => isSpace_of_isBlank (hafter b (List.mem_reverse.1 hb)))
    simp
  · exact absurd (List.prefix_append ..) hmark

end FieldRules.Json

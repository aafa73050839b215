import FieldRules.Proofs.Sequence
import FieldRules.Text.Lines

/-!
# Texts and their lines

* `Bytes.unlines` ends every line with a line feed; `lines_unlines_append` cuts such a text at these
  line feeds again.
* `exists_eq_unlines_append`: a text begins with its first lines.
* `Line.numbered`: the lines that are not blank among some parts of a text, the first part having a
  given number; `mem_numbered_iff` says which lines these are.
-/

namespace FieldRules

namespace Bytes

/-! ### Parts without separators -/

theorem splitOn_of_not_mem {separator : UInt8} {s : Bytes} (h : separator ∉ s) :
    splitOn separator s = [s] := by
  induction s with
  | nil => rfl
  | cons b s ih =>
    have hb : b ≠ separator := fun heq => h (heq ▸ List.mem_cons_self ..)
    rw [splitOn, if_neg hb, ih fun hs => h (List.mem_cons_of_mem _ hs)]

theorem not_mem_of_mem_splitOn {separator : UInt8} {s part : Bytes}
    (h : part ∈ splitOn separator s) :
    separator ∉ part := by
  induction s generalizing part with
  | nil => simp_all
  | cons b s ih =>
    rw [splitOn] at h
    split at h
    · rcases List.mem_cons.1 h with rfl | hs
      · simp
      · exact ih hs
    · next hb =>
      split at h
      · next hs => exact absurd hs (splitOn_ne_nil separator s)
      · next first others hs =>
        rcases List.mem_cons.1 h with rfl | hother
        · have hfirst := ih (hs ▸ List.mem_cons_self ..)
          simp [Ne.symm hb, hfirst]
        · exact ih (hs ▸ List.mem_cons_of_mem _ hother)

theorem mem_of_mem_splitOn {separator b : UInt8} {s part : Bytes} (h : part ∈ splitOn separator s)
    (hb : b ∈ part) :
    b ∈ s := by
  induction s generalizing part with
  | nil => simp_all
  | cons first s ih =>
    rw [splitOn] at h
    split at h
    · rcases List.mem_cons.1 h with rfl | hs
      · cases hb
      · exact List.mem_cons_of_mem _ (ih hs hb)
    · split at h
      · next hs => exact absurd hs (splitOn_ne_nil separator s)
      · next other others hs =>
        rcases List.mem_cons.1 h with rfl | hother
        · rcases List.mem_cons.1 hb with rfl | hb
          · exact List.mem_cons_self ..
          · exact List.mem_cons_of_mem _ (ih (hs ▸ List.mem_cons_self ..) hb)
        · exact List.mem_cons_of_mem _ (ih (hs ▸ List.mem_cons_of_mem _ hother) hb)

/-- Parts without separators are found again between those that join them. -/
theorem splitOn_joinWith {separator : UInt8} {first : Bytes} {parts : List Bytes}
    (h : ∀ part ∈ first :: parts, separator ∉ part) :
    splitOn separator (joinWith [separator] (first :: parts)) = first :: parts := by
  induction parts generalizing first with
  | nil => exact splitOn_of_not_mem (h first (by simp))
  | cons second parts ih =>
    rw [joinWith_cons_cons, List.append_assoc, List.singleton_append, splitOn_append,
      splitOn_of_not_mem (h first (by simp)), ih fun part hpart =>
        h part (List.mem_cons_of_mem _ hpart)]
    rfl

/-- The first of several parts ends where the first separator stands. -/
theorem exists_of_splitOn_eq_cons {separator : UInt8} {s first : Bytes} {parts : List Bytes}
    (h : splitOn separator s = first :: parts) (hparts : parts ≠ []) :
    ∃ rest, s = first ++ separator :: rest ∧ splitOn separator rest = parts := by
  induction s generalizing first with
  | nil =>
    cases h
    exact absurd rfl hparts
  | cons b s ih =>
    rw [splitOn] at h
    split at h
    · next hb =>
      cases h
      exact ⟨s, by rw [hb, List.nil_append], rfl⟩
    · split at h
      · cases h
        exact absurd rfl hparts
      · next part others hs =>
        cases h
        obtain ⟨rest, rfl, hrest⟩ := ih hs
        exact ⟨rest, rfl, hrest⟩

/-- There is one part more than there are separators. -/
theorem length_splitOn (separator : UInt8) (s : Bytes) :
    (splitOn separator s).length = s.count separator + 1 := by
  induction s with
  | nil => rfl
  | cons b s ih =>
    rw [splitOn]
    split
    · next hb => rw [hb, List.length_cons, ih, List.count_cons_self]
    · next hb =>
      rw [List.count_cons_of_ne hb]
      split
      · next hs => exact absurd hs (splitOn_ne_nil separator s)
      · next part others hs => rw [← ih, hs, List.length_cons, List.length_cons]

/-! ### Lines with their ends -/

theorem lines_of_not_mem {line : Bytes} (h : Ascii.lineFeed ∉ line) : line.lines = [line] :=
  splitOn_of_not_mem h

theorem length_lines (text : Bytes) : text.lines.length = text.count Ascii.lineFeed + 1 :=
  length_splitOn Ascii.lineFeed text

/-- The text of lines, each with a line feed at its end. -/
def unlines (parts : List Bytes) : Bytes :=
  parts.flatMap fun part => part ++ [Ascii.lineFeed]

@[simp] theorem unlines_nil : unlines [] = [] := rfl

theorem unlines_cons (part : Bytes) (parts : List Bytes) :
    unlines (part :: parts) = part ++ Ascii.lineFeed :: unlines parts := by
  simp [unlines]

/-- Lines with their ends are the first lines of a text that begins with them. -/
theorem lines_unlines_append {parts : List Bytes} (h : ∀ part ∈ parts, Ascii.lineFeed ∉ part)
    (rest : Bytes) :
    lines (unlines parts ++ rest) = parts ++ lines rest := by
  induction parts with
  | nil => rfl
  | cons part parts ih =>
    obtain ⟨hpart, hparts⟩ := List.forall_mem_cons.1 h
    rw [unlines_cons, List.append_assoc, List.cons_append, lines_append_lineFeed, ih hparts,
      lines_of_not_mem hpart, List.singleton_append, List.cons_append]

/-- A text begins with its first lines and their ends. -/
theorem exists_eq_unlines_append {text part : Bytes} {before after : List Bytes}
    (h : text.lines = before ++ part :: after) : ∃ rest, text = unlines before ++ rest := by
  induction before generalizing text with
  | nil => exact ⟨text, rfl⟩
  | cons first before ih =>
    obtain ⟨rest, rfl, hrest⟩ := exists_of_splitOn_eq_cons h (by simp)
    obtain ⟨tail, rfl⟩ := ih hrest
    exact ⟨tail, by rw [unlines_cons, List.append_assoc, List.cons_append]⟩

end Bytes

namespace Line

/-- The lines that are not blank among some parts of a text, trimmed, the first part having the
given number. -/
def numbered (first : Nat) (parts : List Bytes) : List Line :=
  (parts.zipIdx first).filterMap fun (part, number) =>
    match part.trim with
    | [] => none
    | trimmed => some ⟨number, trimmed⟩

theorem ofText_eq_numbered (text : Bytes) : ofText text = numbered 1 text.lines := rfl

@[simp] theorem numbered_nil (first : Nat) : numbered first [] = [] := rfl

theorem numbered_append (first : Nat) (parts others : List Bytes) :
    numbered first (parts ++ others) = numbered first parts ++
      numbered (first + parts.length) others := by
  simp [numbered, List.zipIdx_append, List.filterMap_append]

theorem numbered_cons_of_blank {part : Bytes} (h : part.trim = []) (first : Nat)
    (parts : List Bytes) :
    numbered first (part :: parts) = numbered (first + 1) parts := by
  simp [numbered, h]

theorem numbered_cons {part : Bytes} (h : part.trim ≠ []) (first : Nat) (parts : List Bytes) :
    numbered first (part :: parts) = ⟨first, part.trim⟩ :: numbered (first + 1) parts := by
  obtain ⟨b, rest, htrim⟩ := List.exists_cons_of_ne_nil h
  simp [numbered, htrim]

/-- The texts of lines are the parts that are not blank, without white space at their ends. -/
theorem map_text_numbered (first : Nat) (parts : List Bytes) :
    (numbered first parts).map Line.text = (parts.map Bytes.trim).filter fun part =>
      !part.isEmpty := by
  induction parts generalizing first with
  | nil => rfl
  | cons part parts ih =>
    by_cases hblank : part.trim = []
    · simp [numbered_cons_of_blank hblank, ih, hblank]
    · simp [numbered_cons hblank, ih, hblank]

/-- The lines among some parts are the parts that are not blank, trimmed, with the numbers of their
places. -/
theorem mem_numbered_iff {line : Line} {first : Nat} {parts : List Bytes} :
    line ∈ numbered first parts ↔
    ∃ before part after, parts = before ++ part :: after ∧ part.trim ≠ [] ∧
      line = ⟨first + before.length, part.trim⟩ := by
  induction parts generalizing first with
  | nil => simp
  | cons part parts ih =>
    rw [exists_split_cons_iff]
    simp only [List.length_nil, Nat.add_zero, List.length_cons, ← Nat.add_assoc,
      Nat.add_right_comm first _ 1, ← ih]
    by_cases hblank : part.trim = []
    · simp [numbered_cons_of_blank hblank, hblank]
    · simp [numbered_cons hblank, hblank]

/-- Every line comes from a part that is not blank. -/
theorem exists_part_of_mem_numbered {line : Line} {first : Nat} {parts : List Bytes}
    (h : line ∈ numbered first parts) :
    ∃ part ∈ parts, part.trim ≠ [] ∧ line.text = part.trim := by
  obtain ⟨before, part, after, rfl, hne, rfl⟩ := mem_numbered_iff.1 h
  exact ⟨part, by simp, hne, rfl⟩

/-- The lines of lines with their ends are those that are not blank. -/
theorem ofText_unlines {parts : List Bytes} (h : ∀ part ∈ parts, Ascii.lineFeed ∉ part) :
    ofText (Bytes.unlines parts) = numbered 1 parts := by
  have hlines : (Bytes.unlines parts).lines = parts ++ [[]] := by
    rw [← List.append_nil (Bytes.unlines parts), Bytes.lines_unlines_append h]
    rfl
  rw [ofText_eq_numbered, hlines, numbered_append, numbered_cons_of_blank Bytes.trim_nil,
    numbered_nil, List.append_nil]

end Line

end FieldRules

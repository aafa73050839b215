import FieldRules.Proofs.Text.Lines
import FieldRules.Proofs.Text.Trim

/-!
# Delivered texts

The lines of a text are delivered trimmed. What was delivered can be written in lines again, and is
then delivered as it is.

* `Line.Delivered`: the texts that lines are delivered as.
* `Line.delivered_of_mem_ofText`: every line of a text is one.
* `Line.numbered_of_delivered`: such texts are lines as they stand, with numbers in sequence.
* `Line.map_text_ofText_unlines`: written with line feeds they are delivered again.
-/

namespace FieldRules

namespace Bytes

theorem mem_of_mem_trim {b : UInt8} {s : Bytes} (h : b ∈ s.trim) : b ∈ s := by
  have hreverse : b ∈ (trimStart s).reverse :=
    (List.dropWhile_sublist _).subset (List.mem_reverse.1 h)
  exact (List.dropWhile_sublist _).subset (List.mem_reverse.1 hreverse)

theorem count_lineFeed_unlines {parts : List Bytes} (h : ∀ part ∈ parts, Ascii.lineFeed ∉ part) :
    (unlines parts).count Ascii.lineFeed = parts.length := by
  induction parts with
  | nil => rfl
  | cons part parts ih =>
    obtain ⟨hpart, hparts⟩ := List.forall_mem_cons.1 h
    rw [unlines_cons, List.count_append, List.count_cons_self, ih hparts,
      List.count_eq_zero.2 hpart, Nat.zero_add,
      List.length_cons]

end Bytes

namespace Line

/-- Holds of a text that a line is delivered as: one without white space at its ends, not empty, in
one line. -/
structure Delivered (text : Bytes) : Prop where
  trim_eq : text.trim = text
  ne_nil : text ≠ []
  lineFeed_not_mem : Ascii.lineFeed ∉ text

/-- A part of a text that is not blank is delivered without the white space around it. -/
theorem delivered_trim {text part : Bytes} (hpart : part ∈ text.lines) (hne : part.trim ≠ []) :
    Delivered part.trim where
  trim_eq := Bytes.trim_trim part
  ne_nil := hne
  lineFeed_not_mem h := Bytes.not_mem_of_mem_splitOn hpart (Bytes.mem_of_mem_trim h)

theorem delivered_of_mem_ofText {text : Bytes} {line : Line} (h : line ∈ ofText text) :
    Delivered line.text := by
  obtain ⟨part, hpart, hne, htext⟩ := exists_part_of_mem_numbered h
  exact htext ▸ delivered_trim hpart hne

theorem length_numbered (first : Nat) (parts : List Bytes) :
    (numbered first parts).length = parts.countP fun part => !part.trim.isEmpty := by
  induction parts generalizing first with
  | nil => rfl
  | cons part parts ih =>
    by_cases hblank : part.trim = []
    · rw [numbered_cons_of_blank hblank, ih, List.countP_cons_of_neg (by simp [hblank])]
    · rw [numbered_cons hblank, List.length_cons, ih, List.countP_cons_of_pos (by simp [hblank])]

variable {texts : List Bytes}

/-- Texts that were delivered are lines as they stand, with numbers in sequence. -/
theorem numbered_of_delivered (h : ∀ text ∈ texts, Delivered text) (first : Nat) :
    numbered first texts = (texts.zipIdx first).map fun (text, number) => ⟨number, text⟩ := by
  induction texts generalizing first with
  | nil => rfl
  | cons text texts ih =>
    obtain ⟨htext, htexts⟩ := List.forall_mem_cons.1 h
    rw [numbered_cons (by rw [htext.trim_eq]; exact htext.ne_nil), htext.trim_eq, ih htexts,
      List.zipIdx_cons, List.map_cons]

/-- Texts that were delivered are delivered again when they are written in lines. -/
theorem map_text_ofText_unlines (h : ∀ text ∈ texts, Delivered text) :
    (ofText (Bytes.unlines texts)).map Line.text = texts := by
  rw [ofText_unlines fun text htext => (h text htext).lineFeed_not_mem, numbered_of_delivered h,
    List.map_map]
  exact List.zipIdx_map_fst 1 texts

end Line

end FieldRules

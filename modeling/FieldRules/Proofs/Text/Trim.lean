import FieldRules.Proofs.Text.Span
import FieldRules.Text.Trim
import Mathlib.Data.List.TakeWhile

/-!
# Trimmed texts

* `Bytes.IsGap`: a run of white space, possibly empty.
* `Bytes.Trimmed`: a text without white space at its ends.
* `trimmed_trim`, `trim_append`: trimming takes a gap off and leaves a trimmed text.
* `exists_gaps`: what is taken off at the two ends are gaps.
* `trim_pad`: gaps around a text do not count.
-/

namespace FieldRules.Bytes

/-- Holds of white space alone. -/
def IsGap (s : Bytes) : Prop :=
  ∀ b ∈ s, Ascii.isSpace b = true

/-- Holds of a text with no white space at its ends. -/
structure Trimmed (s : Bytes) : Prop where
  start : Stops Ascii.isSpace s
  finish : Stops Ascii.isSpace s.reverse

theorem isGap_nil : IsGap [] := by
  intro b hb
  cases hb

/-- What trimming takes off the start of a text is a gap. -/
theorem exists_gap (s : Bytes) : ∃ gap, IsGap gap ∧ s = gap ++ trimStart s := by
  refine ⟨s.takeWhile Ascii.isSpace, ?_, (List.takeWhile_append_dropWhile ..).symm⟩
  intro b hb
  exact List.mem_takeWhile_imp hb

theorem trimStart_append {gap s : Bytes} (hgap : IsGap gap) (h : Stops Ascii.isSpace s) :
    trimStart (gap ++ s) = s :=
  dropWhile_append_of_stops hgap h

theorem trimEnd_of_stops {s : Bytes} (h : Stops Ascii.isSpace s.reverse) : trimEnd s = s := by
  rw [trimEnd, dropWhile_of_stops h, List.reverse_reverse]

theorem trim_append {gap s : Bytes} (hgap : IsGap gap) (h : Trimmed s) : trim (gap ++ s) = s := by
  rw [trim, trimStart_append hgap h.start, trimEnd_of_stops h.finish]

theorem trim_of_trimmed {s : Bytes} (h : Trimmed s) : trim s = s :=
  trim_append isGap_nil h

theorem isGap_reverse {gap : Bytes} (h : IsGap gap) : IsGap gap.reverse := by
  intro b hb
  exact h b (List.mem_reverse.1 hb)

/-- What trimming takes off the end of a text is a gap as well. -/
theorem exists_gap_at_end (s : Bytes) : ∃ gap, IsGap gap ∧ s = trimEnd s ++ gap := by
  obtain ⟨gap, hgap, hs⟩ := exists_gap s.reverse
  refine ⟨gap.reverse, isGap_reverse hgap, ?_⟩
  rw [trimEnd, ← trimStart, ← List.reverse_append, ← hs, List.reverse_reverse]

/-- A text is what trimming leaves of it, between two gaps. -/
theorem exists_gaps (s : Bytes) :
    ∃ left right, IsGap left ∧ IsGap right ∧ s = left ++ trim s ++ right := by
  obtain ⟨left, hleft, hstart⟩ := exists_gap s
  obtain ⟨right, hright, hend⟩ := exists_gap_at_end (trimStart s)
  refine ⟨left, right, hleft, hright, ?_⟩
  rw [trim, List.append_assoc, ← hend, ← hstart]

/-- Trimming leaves no white space at either end. -/
theorem trimmed_trim (s : Bytes) : Trimmed (trim s) where
  start := by
    obtain ⟨gap, -, hgap⟩ := exists_gap_at_end (trimStart s)
    have hstart : Stops Ascii.isSpace (trimStart s) := stops_dropWhile _ _
    rw [trim]
    cases htrim : trimEnd (trimStart s) with
    | nil => exact stops_nil _
    | cons b rest =>
      rw [htrim] at hgap
      rw [hgap] at hstart
      exact stops_cons.2 (stops_cons.1 hstart)
  finish := by
    rw [trim, trimEnd, List.reverse_reverse]
    exact stops_dropWhile _ _

theorem trim_trim (s : Bytes) : trim (trim s) = trim s :=
  trim_of_trimmed (trimmed_trim s)

/-- Trimming takes off any gaps around a text. -/
theorem trim_pad {left right : Bytes} (hleft : IsGap left) (hright : IsGap right) (s : Bytes) :
    trim (left ++ s ++ right) = trim s := by
  have hend (t : Bytes) : trimEnd (t ++ right) = trimEnd t := by
    rw [trimEnd, List.reverse_append, List.dropWhile_append_of_pos (isGap_reverse hright), trimEnd]
  have hstart : trimStart (left ++ s ++ right) = trimStart (s ++ right) := by
    rw [List.append_assoc, trimStart, List.dropWhile_append_of_pos hleft, trimStart]
  rw [trim, hstart, trim]
  cases hs : trimStart s with
  | nil =>
    -- nothing but white space: the gap on the right goes with the text
    have hgap : IsGap (s ++ right) := by
      intro b hb
      rcases List.mem_append.1 hb with hb | hb
      · exact List.dropWhile_eq_nil_iff.1 hs b hb
      · exact hright b hb
    rw [trimStart, List.dropWhile_eq_nil_iff.2 hgap]
  | cons b rest =>
    have : trimStart (s ++ right) = trimStart s ++ right := by
      rw [trimStart, List.dropWhile_append, ← trimStart, hs]
      rfl
    rw [this, hend, hs]

/-- The end of a text is trimmed if the whole text is. -/
theorem stops_reverse_of_append {s t : Bytes} (h : Stops Ascii.isSpace (s ++ t).reverse) :
    Stops Ascii.isSpace t.reverse := by
  rw [List.reverse_append] at h
  cases ht : t.reverse with
  | nil => exact stops_nil _
  | cons b rest =>
    rw [ht] at h
    exact stops_cons.2 (stops_cons.1 h)

theorem trim_eq_nil_iff {s : Bytes} : trim s = [] ↔ IsGap s := by
  constructor
  · intro htrim
    obtain ⟨left, right, hleft, hright, hs⟩ := exists_gaps s
    rw [hs, htrim, List.append_nil]
    intro b hb
    exact (List.mem_append.1 hb).elim (hleft b) (hright b)
  · intro hgap
    have hpad := trim_pad hgap isGap_nil []
    rwa [List.append_nil, List.append_nil] at hpad

/-- Of a text with no white space at its end, trimming leaves what is behind the gap at its
start. -/
theorem trim_of_stops_reverse {s : Bytes} (h : Stops Ascii.isSpace s.reverse) :
    trim s = trimStart s := by
  obtain ⟨gap, -, hs⟩ := exists_gap s
  rw [hs] at h
  rw [trim, trimEnd_of_stops (stops_reverse_of_append h)]

/-- A text ends with no white space if a part at its end, not empty, does so. -/
theorem stops_reverse_append {s t : Bytes} (hne : t ≠ []) (h : Stops Ascii.isSpace t.reverse) :
    Stops Ascii.isSpace (s ++ t).reverse := by
  rw [List.reverse_append]
  obtain ⟨b, rest, ht⟩ := List.exists_cons_of_ne_nil (List.reverse_ne_nil_iff.2 hne)
  rw [ht] at h ⊢
  exact stops_cons.2 (stops_cons.1 h)

end FieldRules.Bytes

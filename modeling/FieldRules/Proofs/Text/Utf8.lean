import FieldRules.Text.Utf8
import Mathlib.Tactic.SplitIfs

/-!
# Well-formed UTF-8

The check of a byte string owes only bytes beyond ASCII, so that an ASCII byte stands between
characters alone.

* `Utf8.Continues`: the states of the check; `Continues.step` keeps to them.
* `eq_nil_of_step`: an ASCII byte begins and ends a character.
* `run_of_ascii`, `run_encode`: ASCII texts and encoded characters are well-formed.
-/

namespace FieldRules.Utf8

/-! ### States -/

/-- Holds of ranges that no ASCII byte lies in. -/
def Continues (owed : List ByteRange) : Prop :=
  ∀ range ∈ owed, 0x7F < range.1

variable {owed next : List ByteRange} {b : UInt8}

theorem continues_nil : Continues [] := by
  intro range hrange
  cases hrange

theorem continues_owedAfter (h : owedAfter b = some owed) : Continues owed := by
  unfold owedAfter at h
  split_ifs at h <;> cases h <;> simp [Continues, continuation]

theorem Continues.step (h : Continues owed) (hstep : step owed b = some next) : Continues next := by
  match owed with
  | [] => exact continues_owedAfter hstep
  | (low, high) :: owed =>
    rw [Utf8.step] at hstep
    split_ifs at hstep
    cases hstep
    exact fun range hrange => h range (List.mem_cons_of_mem _ hrange)

/-- A text is ASCII if one look through its bytes finds nothing else. -/
theorem ascii_of_all {s : Bytes} (h : s.all (· ≤ 0x7F) = true) : ∀ c ∈ s, c ≤ 0x7F := by
  simpa using h

theorem step_of_ascii (hb : b ≤ 0x7F) : step [] b = some [] := by
  rw [step, owedAfter, if_pos hb]

/-- An ASCII byte stands where nothing is owed, and owes nothing. -/
theorem eq_nil_of_step (h : Continues owed) (hb : b ≤ 0x7F) (hstep : step owed b = some next) :
    owed = [] ∧ next = [] := by
  match owed with
  | [] =>
    rw [step_of_ascii hb] at hstep
    cases hstep
    exact ⟨rfl, rfl⟩
  | (low, high) :: owed =>
    have hlow : 0x7F < low := h (low, high) (List.mem_cons_self ..)
    rw [step] at hstep
    split_ifs at hstep with hrange
    exact absurd (UInt8.lt_of_lt_of_le hlow (UInt8.le_trans hrange.1 hb)) (UInt8.lt_irrefl _)

theorem Continues.run {s : Bytes} (h : Continues owed) (hrun : run owed s = some next) :
    Continues next := by
  induction s generalizing owed with
  | nil =>
    cases hrun
    exact h
  | cons b s ih =>
    obtain ⟨after, hstep, hrest⟩ := Option.bind_eq_some_iff.1 hrun
    exact ih (h.step hstep) hrest

theorem run_of_ascii {s : Bytes} (h : ∀ b ∈ s, b ≤ 0x7F) : run [] s = some [] := by
  induction s with
  | nil => rfl
  | cons b s ih =>
    rw [run_cons, step_of_ascii (h b (List.mem_cons_self ..))]
    exact ih fun c hc => h c (List.mem_cons_of_mem _ hc)

/-- An ASCII text, not empty, cannot stand within a character. -/
theorem run_of_ascii_cons {s : Bytes} (h : Continues owed) (hs : ∀ c ∈ b :: s, c ≤ 0x7F) :
    run owed (b :: s) = if owed = [] then some [] else none := by
  split_ifs with howed
  · rw [howed, run_of_ascii hs]
  · rw [run_cons]
    cases hstep : step owed b with
    | none => rfl
    | some next => exact absurd (eq_nil_of_step h (hs b (List.mem_cons_self ..)) hstep).1 howed

/-- Behind an ASCII text, not empty, nothing is owed, nor was in front of it. -/
theorem run_of_ascii_append {s rest : Bytes} {final : List ByteRange} (h : Continues owed)
    (hs : ∀ c ∈ b :: s, c ≤ 0x7F) (hrun : run owed (b :: s ++ rest) = some final) :
    owed = [] ∧ run [] rest = some final := by
  rw [run_append, run_of_ascii_cons h hs] at hrun
  obtain ⟨next, hnext, hrest⟩ := Option.bind_eq_some_iff.1 hrun
  split_ifs at hnext with howed
  cases hnext
  exact ⟨howed, hrest⟩

/-! ### Encoded characters -/

theorem step_nil (b : UInt8) : step [] b = owedAfter b := rfl

theorem owedAfter_two :
    ∀ k < 32, 2 ≤ k → owedAfter (UInt8.ofNat (k + 192)) = some [continuation] := by
  decide

/-- What the first of three bytes owes: the second is bounded where overlong forms and surrogates
would begin. -/
theorem owedAfter_three : ∀ k < 16, owedAfter (UInt8.ofNat (k + 224)) =
    some [if k = 0 then (0xA0, 0xBF) else if k = 13 then (0x80, 0x9F) else continuation,
      continuation] := by
  decide

/-- What the first of four bytes owes: the second is bounded where overlong forms and larger numbers
would begin. -/
theorem owedAfter_four : ∀ k < 5, owedAfter (UInt8.ofNat (k + 240)) =
    some [if k = 0 then (0x90, 0xBF) else if k = 4 then (0x80, 0x8F) else continuation,
      continuation, continuation] := by
  decide

/-- A byte in the range that is owed next leaves the others. -/
theorem step_ofNat {low high : UInt8} {n : Nat} (hlow : low.toNat ≤ n) (hhigh : n ≤ high.toNat) :
    step ((low, high) :: owed) (UInt8.ofNat n) = some owed := by
  have htoNat : (UInt8.ofNat n).toNat = n :=
    UInt8.toNat_ofNat_of_lt' (Nat.lt_of_le_of_lt hhigh high.toNat_lt)
  rw [step, if_pos]
  rw [UInt8.le_iff_toNat_le, UInt8.le_iff_toNat_le, htoNat]
  exact ⟨hlow, hhigh⟩

theorem step_continuation (n : Nat) :
    step (continuation :: owed) (UInt8.ofNat (n % 64 + 128)) = some owed :=
  step_ofNat (Nat.le_add_left 128 _) (show n % 64 + 128 ≤ 191 by omega)

theorem run_encodeChar (c : Char) : run [] (String.utf8EncodeChar c) = some [] := by
  have hvalid : c.val.toNat < 0xD800 ∨ 0xDFFF < c.val.toNat ∧ c.val.toNat < 0x110000 := c.valid
  unfold String.utf8EncodeChar
  generalize c.val.toNat = n at hvalid
  dsimp only
  split_ifs with hone htwo hthree
  · refine run_of_ascii fun b hb => ?_
    rw [List.mem_singleton.1 hb, UInt8.le_iff_toNat_le, UInt8.toNat_ofNat']
    exact Nat.le_trans (Nat.mod_le ..) hone
  · have hfirst := owedAfter_two (n / 64 % 32) (by omega) (by omega)
    simp only [run_cons, step_nil, hfirst, step_continuation, Option.bind_some, run_nil]
  · have hfirst := owedAfter_three (n / 4096 % 16) (by omega)
    have hsecond (owed : List ByteRange) : step ((if n / 4096 % 16 = 0 then (0xA0, 0xBF)
        else if n / 4096 % 16 = 13 then (0x80, 0x9F) else continuation) :: owed)
        (UInt8.ofNat (n / 64 % 64 + 128)) = some owed := by
      split_ifs with hoverlong hsurrogates
      · exact step_ofNat (show 160 ≤ _ by omega) (show _ ≤ 191 by omega)
      · exact step_ofNat (show 128 ≤ _ by omega) (show _ ≤ 159 by omega)
      · exact step_continuation _
    simp only [run_cons, step_nil, hfirst, hsecond, step_continuation, Option.bind_some, run_nil]
  · have hlead : n / 262144 % 8 < 5 := by omega
    have hfirst := owedAfter_four (n / 262144 % 8) hlead
    have hsecond (owed : List ByteRange) : step ((if n / 262144 % 8 = 0 then (0x90, 0xBF)
        else if n / 262144 % 8 = 4 then (0x80, 0x8F) else continuation) :: owed)
        (UInt8.ofNat (n / 4096 % 64 + 128)) = some owed := by
      split_ifs with hoverlong hlast
      · exact step_ofNat (show 144 ≤ _ by omega) (show _ ≤ 191 by omega)
      · exact step_ofNat (show 128 ≤ _ by omega) (show _ ≤ 143 by omega)
      · exact step_continuation _
    simp only [run_cons, step_nil, hfirst, hsecond, step_continuation, Option.bind_some, run_nil]

/-- The UTF-8 form of a character is well-formed. -/
theorem run_encode (n : Nat) : run [] (encode n) = some [] :=
  run_encodeChar _

end FieldRules.Utf8

import FieldRules.Text.Basic
import Mathlib.Data.List.TakeWhile

/-!
# Runs at the start of a text

* `Bytes.Stops`: a text that does not go on with a byte of a class.
* `takeWhile_append_of_stops` and `dropWhile_append_of_stops`: a run of bytes of a class in front of
  such a text is exactly what scanning takes off.
* `exists_run` and `append_inj_of_stops`: a text splits into such a run and what follows it, in one
  way.
-/

namespace FieldRules.Bytes

/-- Holds of a text that is over, or goes on with a byte outside the class. -/
def Stops (p : UInt8 → Bool) (s : Bytes) : Prop :=
  ∀ b ∈ s.head?, p b = false

@[simp] theorem stops_nil (p : UInt8 → Bool) : Stops p [] := by
  intro b hb
  cases hb

@[simp] theorem stops_cons {p : UInt8 → Bool} {b : UInt8} {s : Bytes} :
    Stops p (b :: s) ↔ p b = false := by
  constructor
  · intro h
    exact h b rfl
  · rintro h c ⟨⟩
    exact h

instance (p : UInt8 → Bool) : (s : Bytes) → Decidable (Stops p s)
  | [] => .isTrue (stops_nil p)
  | _ :: _ => decidable_of_iff _ stops_cons.symm

/-- A text does not begin with a byte of a class if it does not do so with more behind it. -/
theorem Stops.of_append {p : UInt8 → Bool} {s t : Bytes} (h : Stops p (s ++ t)) : Stops p s := by
  cases s with
  | nil => exact stops_nil p
  | cons b s => exact stops_cons.2 (stops_cons.1 h)

/-- A run of bytes of a class that does not begin with one is empty. -/
theorem Stops.eq_nil {p : UInt8 → Bool} {s : Bytes} (h : Stops p s) (hs : ∀ b ∈ s, p b = true) :
    s = [] := by
  cases s with
  | nil => rfl
  | cons b s => exact absurd (hs b (List.mem_cons_self ..)) (by simp [stops_cons.1 h])

theorem stops_dropWhile (p : UInt8 → Bool) (s : Bytes) : Stops p (s.dropWhile p) := by
  induction s with
  | nil => exact stops_nil p
  | cons b s ih =>
    cases hb : p b with
    | true => rwa [List.dropWhile_cons_of_pos hb]
    | false => rwa [List.dropWhile_cons_of_neg (by simp [hb]), stops_cons]

theorem takeWhile_of_stops {p : UInt8 → Bool} {s : Bytes} (h : Stops p s) : s.takeWhile p = [] := by
  cases s with
  | nil => rfl
  | cons b s => rw [List.takeWhile_cons_of_neg (by simp [stops_cons.1 h])]

theorem dropWhile_of_stops {p : UInt8 → Bool} {s : Bytes} (h : Stops p s) : s.dropWhile p = s := by
  cases s with
  | nil => rfl
  | cons b s => rw [List.dropWhile_cons_of_neg (by simp [stops_cons.1 h])]

theorem takeWhile_append_of_stops {p : UInt8 → Bool} {run rest : Bytes}
    (hrun : ∀ b ∈ run, p b = true) (hrest : Stops p rest) : (run ++ rest).takeWhile p = run := by
  rw [List.takeWhile_append_of_pos hrun, takeWhile_of_stops hrest, List.append_nil]

theorem dropWhile_append_of_stops {p : UInt8 → Bool} {run rest : Bytes}
    (hrun : ∀ b ∈ run, p b = true) (hrest : Stops p rest) : (run ++ rest).dropWhile p = rest := by
  rw [List.dropWhile_append_of_pos hrun, dropWhile_of_stops hrest]

/-- Every text begins with a run of bytes of a class, possibly empty, that does not go on. -/
theorem exists_run (p : UInt8 → Bool) (s : Bytes) :
    ∃ run rest, s = run ++ rest ∧ (∀ b ∈ run, p b = true) ∧ Stops p rest :=
  ⟨s.takeWhile p, s.dropWhile p, List.takeWhile_append_dropWhile.symm, fun _ hb =>
    List.mem_takeWhile_imp hb,
    stops_dropWhile p s⟩

/-- A run of bytes of a class and what follows it are determined by the text they make up. -/
theorem append_inj_of_stops {p : UInt8 → Bool} {run other rest tail : Bytes}
    (hrun : ∀ b ∈ run, p b = true) (hother : ∀ b ∈ other, p b = true) (hrest : Stops p rest)
    (htail : Stops p tail) (h : run ++ rest = other ++ tail) :
    run = other ∧ rest = tail := by
  have hsame : run = other := by
    rw [← takeWhile_append_of_stops hrun hrest, h, takeWhile_append_of_stops hother htail]
  exact ⟨hsame, List.append_cancel_left (hsame ▸ h)⟩

end FieldRules.Bytes

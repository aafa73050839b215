import FieldRules.Tree.Schedule
import Mathlib.Data.List.Nodup
import Mathlib.Data.List.Perm.Lattice
import Mathlib.Data.List.Range
import Mathlib.Data.List.Sort

/-!
# Stripes and interleavings

* `stripe_eq_range'`: the places that a thread goes through, one after the other.
* `work_perm`: however many threads start, their work together is every place once.
* `Interleaving.perm`: an interleaving takes every step of every list once.
* `interleaving_flatten`: taking one list after the other is an interleaving.
-/

namespace FieldRules.Schedule

variable {α : Type} {threads started files requested cores : Nat}

/-! ### Stripes -/

theorem mem_stripe {place first : Nat} :
    place ∈ stripe threads files first ↔ place < files ∧ place % threads = first := by
  simp [stripe]

theorem nodup_stripe (threads files first : Nat) : (stripe threads files first).Nodup :=
  List.nodup_range.filter _

/-- A stripe goes from its first place on in steps of the number of threads. -/
theorem stripe_eq_range' {first : Nat} (hfirst : first < threads) :
    stripe threads files first =
      List.range' first ((files - first + threads - 1) / threads) threads := by
  have hpos : 0 < threads := Nat.zero_lt_of_lt hfirst
  have hordered :
      (List.range' first ((files - first + threads - 1) / threads) threads).Pairwise (· < ·) :=
    List.pairwise_lt_range' threads hpos
  have hbound : ∀ i, i < (files - first + threads - 1) / threads ↔ first + threads * i < files := by
    intro i
    rw [← Nat.succ_le_iff, Nat.le_div_iff_mul_le hpos, Nat.succ_mul, Nat.mul_comm i]
    omega
  -- both lists are in order, so that it is enough that they have the same places
  refine List.Perm.eq_of_pairwise' (List.pairwise_lt_range.filter _) hordered ?_
  refine (List.perm_ext_iff_of_nodup (nodup_stripe threads files first)
    (hordered.imp Nat.ne_of_lt)).2 ?_
  intro place
  rw [mem_stripe, List.mem_range']
  constructor
  · rintro ⟨hplace, hmod⟩
    have hdivision : first + threads * (place / threads) = place :=
      hmod ▸ Nat.mod_add_div place threads
    exact ⟨place / threads, (hbound _).2 (by rwa [hdivision]), hdivision.symm⟩
  · rintro ⟨i, hi, rfl⟩
    exact ⟨(hbound i).1 hi, by rw [Nat.add_mul_mod_self_left, Nat.mod_eq_of_lt hfirst]⟩

/-- The stripes of all threads are every place once. -/
theorem stripes_perm (hpos : 0 < threads) (files : Nat) :
    ((List.range threads).flatMap (stripe threads files)).Perm (List.range files) := by
  refine (List.perm_ext_iff_of_nodup ?_ List.nodup_range).2 ?_
  · refine List.nodup_flatMap.2 ⟨fun first _ => nodup_stripe threads files first, ?_⟩
    refine List.nodup_range.imp fun hne => ?_
    intro place hplace hother
    exact hne ((mem_stripe.1 hplace).2.symm.trans (mem_stripe.1 hother).2)
  · intro place
    simp only [List.mem_flatMap, List.mem_range, mem_stripe]
    constructor
    · rintro ⟨_, -, hplace, -⟩
      exact hplace
    · intro hplace
      exact ⟨place % threads, Nat.mod_lt _ hpos, hplace, rfl⟩

/-- The threads that started and those that did not are all threads. -/
theorem range_eq_append (hstarted : 1 ≤ started) (hle : started ≤ threads) :
    List.range threads = 0 :: (List.range' 1 (started - 1) ++
      List.range' started (threads - started)) := by
  obtain ⟨others, rfl⟩ := Nat.exists_eq_add_of_le' hstarted
  obtain ⟨missing, rfl⟩ := Nat.exists_eq_add_of_le hle
  have hsplit : List.range' 1 others ++ List.range' (others + 1) missing =
      List.range' 1 (others + missing) := by
    rw [Nat.add_comm others 1]
    exact List.range'_append_1
  rw [Nat.add_sub_cancel, Nat.add_sub_cancel_left, hsplit, List.range_eq_range',
    show others + 1 + missing = others + missing + 1 by omega, List.range'_succ]

/-- However many threads start, the work of all together is every place once. -/
theorem work_perm (hstarted : 1 ≤ started) (hle : started ≤ threads) (files : Nat) :
    (work threads started files).flatten.Perm (List.range files) := by
  refine .trans ?_ (stripes_perm (Nat.lt_of_lt_of_le hstarted hle) files)
  rw [range_eq_append hstarted hle, List.flatMap_cons, List.flatMap_append, work,
    List.flatten_cons, callerWork, List.append_assoc, ← List.flatMap_def]
  exact List.perm_append_comm.append_left _

theorem threadCount_pos (requested cores files : Nat) : 1 ≤ threadCount requested cores files := by
  unfold threadCount
  split <;> omega

/-! ### Interleavings -/

/-- An interleaving takes every step of every list once. -/
theorem Interleaving.perm {lists : List (List α)} {order : List α} (h : Interleaving lists order) :
    order.Perm lists.flatten := by
  induction h with
  | done hnil => rw [List.flatten_eq_nil_iff.2 hnil]
  | @step before after a rest order _ ih =>
    simp only [List.flatten_append, List.flatten_cons, List.cons_append] at ih ⊢
    exact (ih.cons a).trans List.perm_middle.symm

/-- Lists behind some that are used up can be taken one after the other. -/
theorem interleaving_append_flatten {used : List (List α)} (hused : ∀ list ∈ used, list = [])
    (lists : List (List α)) :
    Interleaving (used ++ lists) lists.flatten := by
  induction lists generalizing used with
  | nil =>
    rw [List.append_nil]
    exact .done hused
  | cons list rest ih =>
    induction list with
    -- a list that is done joins those that are used up
    | nil =>
      have hnext : ∀ list ∈ used ++ [[]], list = [] := by simpa [or_imp, forall_and] using hused
      have hrest := ih hnext
      rwa [List.append_assoc, List.singleton_append] at hrest
    | cons a list ihlist =>
      rw [List.flatten_cons, List.cons_append]
      exact .step ihlist

theorem interleaving_flatten (lists : List (List α)) : Interleaving lists lists.flatten :=
  @interleaving_append_flatten α [] (List.forall_mem_nil _) lists

end FieldRules.Schedule

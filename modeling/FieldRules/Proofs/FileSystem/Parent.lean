import FieldRules.FileSystem.Path
import FieldRules.Proofs.Text.Span

/-!
# The directory of a path

* `Path.IsParent`: the text in front of the last name of a path.
* `isParent_iff`: it is what `Path.parent` gives.
-/

namespace FieldRules.Path

open Bytes

/-- Holds of the directory of a path, by the slashes in front of the last name: without any it is
empty, with nothing in front of them it is the root, and else it is what is in front of them. -/
inductive IsParent : (path directory : Bytes) → Prop
  | none {name : Bytes} (hname : Ascii.slash ∉ name) : IsParent name []
  | root {slashes name : Bytes} (hslashes : ∀ b ∈ slashes, b = Ascii.slash) (hne : slashes ≠ [])
    (hname : Ascii.slash ∉ name) : IsParent (slashes ++ name) [Ascii.slash]
  | directory {directory slashes name : Bytes} (hdirectory : directory ≠ [])
    (hend : directory.getLast? ≠ some Ascii.slash)
    (hslashes : ∀ b ∈ slashes, b = Ascii.slash) (hne : slashes ≠ [])
    (hname : Ascii.slash ∉ name) : IsParent (directory ++ slashes ++ name) directory

variable {path directory front slashes name : Bytes}

theorem parent_of_not_mem (hname : Ascii.slash ∉ name) : parent name = [] := by
  have hdrop : name.reverse.dropWhile (· != Ascii.slash) = [] := by
    rw [List.dropWhile_eq_nil_iff]
    intro b hb
    refine bne_iff_ne.2 ?_
    rintro rfl
    exact hname (List.mem_reverse.1 hb)
  rw [parent, hdrop]
  rfl

/-- What is in front of the last name is cut off in front of the slashes between them, if there is
more than these. -/
theorem parent_append (hend : front.getLast? ≠ some Ascii.slash)
    (hslashes : ∀ b ∈ slashes, b = Ascii.slash) (hne : slashes ≠ []) (hname : Ascii.slash ∉ name) :
    parent (front ++ slashes ++ name) = if front = [] then [Ascii.slash] else front := by
  obtain ⟨b, more, hmore⟩ := List.exists_cons_of_ne_nil (List.reverse_ne_nil_iff.2 hne)
  have hb : b = Ascii.slash := hslashes b (List.mem_reverse.1 (hmore ▸ List.mem_cons_self ..))
  have hupToName : (front ++ slashes ++ name).reverse.dropWhile (· != Ascii.slash) =
      slashes.reverse ++ front.reverse := by
    rw [List.reverse_append, List.reverse_append]
    refine dropWhile_append_of_stops (fun c hc => bne_iff_ne.2 ?_) ?_
    · rintro rfl
      exact hname (List.mem_reverse.1 hc)
    · rw [hmore, List.cons_append, stops_cons, hb]
      rfl
  have hupToSlashes : (slashes.reverse ++ front.reverse).dropWhile (· == Ascii.slash) =
      front.reverse := by
    refine dropWhile_append_of_stops (fun c hc =>
      beq_iff_eq.2 (hslashes c (List.mem_reverse.1 hc))) ?_
    intro c hc
    rw [List.head?_reverse] at hc
    refine beq_eq_false_iff_ne.2 ?_
    rintro rfl
    exact hend hc
  rw [parent, hupToName, hupToSlashes, hmore, hb]
  by_cases hfront : front = [] <;> simp [hfront]

theorem IsParent.eq_parent (h : IsParent path directory) : directory = parent path := by
  cases h with
  | none hname => rw [parent_of_not_mem hname]
  | root hslashes hne hname =>
    have hend : ([] : Bytes).getLast? ≠ some Ascii.slash := by simp
    have hparent := parent_append hend hslashes hne hname
    rw [List.nil_append, if_pos rfl] at hparent
    exact hparent.symm
  | directory hdirectory hend hslashes hne hname => rw [parent_append hend hslashes hne hname,
      if_neg hdirectory]

/-- Every path is a name, with slashes in front of it or not, and with more in front of these or
not. -/
theorem exists_isParent (path : Bytes) : ∃ directory, IsParent path directory := by
  obtain ⟨name, rest, hpath, hname, hrest⟩ := exists_run (· != Ascii.slash) path.reverse
  obtain ⟨slashes, front, rfl, hslashes, hfront⟩ := exists_run (· == Ascii.slash) rest
  have hsplit : path = front.reverse ++ slashes.reverse ++ name.reverse := by
    rw [← List.reverse_reverse path, hpath]
    simp
  have hname : Ascii.slash ∉ name.reverse :=
    fun hmem => by simpa using hname _ (List.mem_reverse.1 hmem)
  have hslashes : ∀ b ∈ slashes.reverse, b = Ascii.slash :=
    fun b hb => by simpa using hslashes b (List.mem_reverse.1 hb)
  rw [hsplit]
  cases slashes with
  | nil =>
    -- what follows the name begins with a slash, and with none
    have hnil : front = [] := by
      cases front with
      | nil => rfl
      | cons b front => simp_all
    exact ⟨[], by simpa [hnil] using IsParent.none hname⟩
  | cons slash slashes =>
    cases front with
    | nil => exact ⟨_, .root hslashes (by simp) hname⟩
    | cons b front =>
      have hend : (b :: front).reverse.getLast? ≠ some Ascii.slash := by
        rw [List.getLast?_reverse]
        simpa using hfront
      exact ⟨_, .directory (by simp) hend hslashes (by simp) hname⟩

/-- The directory of a path is what its last slashes tell. -/
theorem isParent_iff : IsParent path directory ↔ directory = parent path := by
  constructor
  · exact IsParent.eq_parent
  · rintro rfl
    obtain ⟨found, hfound⟩ := exists_isParent path
    exact hfound.eq_parent ▸ hfound

end FieldRules.Path

import FieldRules.Json.Basic
import Mathlib.Data.List.Basic

/-!
# Members in order

Objects that are built from members have their keys in increasing order, and are built again from
their own members.

* `Json.InOrder`: members in increasing order of their keys.
* `exists_ofMembers`: an object that is built has members in order, out of those it is built from.
* `ofMembers_of_inOrder`: members in order are the members of the object that is built from them.
-/

namespace FieldRules

theorem Bytes.order_eq_gt_iff {a b : Bytes} : order a b = .gt ↔ b < a := by
  have hle : b ≤ a ↔ b < a ∨ b = a := List.le_iff_lt_or_eq
  have hasymm : a < b → ¬ b < a := List.lt_asymm
  cases horder : order a b with
  | lt => simpa using hasymm (order_eq_lt_iff.1 horder)
  | eq =>
    obtain rfl := order_eq_eq_iff.1 horder
    simp
  | gt =>
    have hlt : ¬ a < b := by simp [← order_eq_lt_iff, horder]
    have hne : b ≠ a := by
      rintro rfl
      simp at horder
    simpa using (hle.1 (List.not_lt.1 hlt)).resolve_right hne

namespace Json

/-- Holds of members in increasing order of their keys. -/
def InOrder (members : List (Bytes × Json)) : Prop :=
  members.Pairwise fun first second => first.1 < second.1

variable {key : Bytes} {value : Json} {members : List (Bytes × Json)}

theorem mem_of_mem_insertMember {member : Bytes × Json}
    (h : member ∈ insertMember key value members) :
    member = (key, value) ∨ member ∈ members := by
  induction members with
  | nil => exact Or.inl (List.mem_singleton.1 h)
  | cons first members ih =>
    rw [insertMember] at h
    split at h
    · exact List.mem_cons.1 h
    · exact (List.mem_cons.1 h).imp_right (List.mem_cons_of_mem _)
    · rcases List.mem_cons.1 h with rfl | h
      · exact Or.inr (List.mem_cons_self ..)
      · exact (ih h).imp_right (List.mem_cons_of_mem _)

theorem InOrder.insertMember (h : InOrder members) : InOrder (insertMember key value members) := by
  induction members with
  | nil => exact List.pairwise_singleton ..
  | cons first members ih =>
    obtain ⟨hfirst, hrest⟩ := List.pairwise_cons.1 h
    rw [Json.insertMember]
    split
    · next horder =>
      have hlt : key < first.1 := Bytes.order_eq_lt_iff.1 horder
      refine List.pairwise_cons.2 ⟨fun member hmember => ?_, h⟩
      rcases List.mem_cons.1 hmember with rfl | hmember
      · exact hlt
      · exact List.lt_trans hlt (hfirst member hmember)
    · next horder =>
      obtain rfl : key = first.1 := Bytes.order_eq_eq_iff.1 horder
      exact List.pairwise_cons.2 ⟨hfirst, hrest⟩
    · next horder =>
      refine List.pairwise_cons.2 ⟨fun member hmember => ?_, ih hrest⟩
      rcases mem_of_mem_insertMember hmember with rfl | hmember
      · exact Bytes.order_eq_gt_iff.1 horder
      · exact hfirst member hmember

/-- A member with the last key goes to the end. -/
theorem insertMember_of_forall_lt (h : ∀ member ∈ members, member.1 < key) :
    insertMember key value members = members ++ [(key, value)] := by
  induction members with
  | nil => rfl
  | cons first members ih =>
    have horder : Bytes.order key first.1 = .gt :=
      Bytes.order_eq_gt_iff.2 (h first (List.mem_cons_self ..))
    rw [insertMember, horder]
    exact congrArg (first :: ·) (ih fun member hmember => h member (List.mem_cons_of_mem _ hmember))

/-- Setting members one after the other keeps the order, and sets nothing else. -/
theorem InOrder.foldl_insertMember (members : List (Bytes × Json)) {kept : List (Bytes × Json)}
    (h : InOrder kept) :
    InOrder (members.foldl (fun object member => Json.insertMember member.1 member.2 object) kept) ∧
      ∀ member ∈ members.foldl (fun object member =>
        Json.insertMember member.1 member.2 object) kept,
        member ∈ kept ∨ member ∈ members := by
  induction members generalizing kept with
  | nil => exact ⟨h, fun member hmember => Or.inl hmember⟩
  | cons first members ih =>
    obtain ⟨horder, hmem⟩ := @ih (Json.insertMember first.1 first.2 kept) h.insertMember
    refine ⟨horder, fun member hmember => ?_⟩
    rcases hmem member hmember with hmember | hmember
    · rcases mem_of_mem_insertMember hmember with rfl | hmember
      · exact Or.inr (List.mem_cons_self ..)
      · exact Or.inl hmember
    · exact Or.inr (List.mem_cons_of_mem _ hmember)

/-- An object that is built has members in order, each of them one that it is built from. -/
theorem exists_ofMembers (members : List (Bytes × Json)) :
    ∃ kept, ofMembers members = .object kept ∧ InOrder kept ∧ ∀ member ∈ kept,
      member ∈ members := by
  have hempty : InOrder [] := List.Pairwise.nil
  obtain ⟨horder, hmem⟩ := hempty.foldl_insertMember members
  exact ⟨_, rfl, horder, fun member hmember => (hmem member hmember).resolve_left List.not_mem_nil⟩

theorem foldl_insertMember_of_inOrder {kept members : List (Bytes × Json)}
    (h : InOrder (kept ++ members)) :
    members.foldl (fun object member => insertMember member.1 member.2 object) kept =
      kept ++ members := by
  induction members generalizing kept with
  | nil => simp
  | cons first members ih =>
    have hlt : ∀ member ∈ kept, member.1 < first.1 := fun member hmember =>
      (List.pairwise_append.1 h).2.2 member hmember first (List.mem_cons_self ..)
    have hnext : InOrder (kept ++ [first] ++ members) := by simpa using h
    rw [List.foldl_cons, insertMember_of_forall_lt hlt, ih hnext]
    simp

/-- Members in order are those of the object that is built from them. -/
theorem ofMembers_of_inOrder (h : InOrder members) : ofMembers members = .object members := by
  rw [ofMembers, foldl_insertMember_of_inOrder (show InOrder ([] ++ members) from h),
    List.nil_append]

end Json

end FieldRules

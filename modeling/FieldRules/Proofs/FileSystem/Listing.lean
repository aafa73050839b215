import FieldRules.Proofs.FileSystem.WellFormed
import FieldRules.Tree.Files

/-!
# Directories that are listed

* `Node.Listed`: every directory at or below a node lists its entries.
* `Node.WellFormed.refusal?_eq_none_iff`: these are the nodes without a refusal.
* `FileSystem.listFiles_of_listed`, `FileSystem.exists_listFiles_of_not_listed`: the files below a
  root, and why there are none.
-/

namespace FieldRules

namespace Node

variable {node found : Node} {entries : List (Bytes × Node)} {refusal : Option Bytes}
  {message : Bytes}

theorem refusal?_directory (entries : List (Bytes × Node)) (refusal : Option Bytes) :
    (directory entries refusal).refusal? =
      refusal.or (entries.findSome? fun entry => entry.2.refusal?) := by
  rw [refusal?]
  refine congrArg _ ?_
  induction entries with
  | nil => rfl
  | cons entry rest ih =>
    obtain ⟨name, node⟩ := entry
    rw [refusal?.entriesRefusal?, List.findSome?_cons, ih]
    cases node.refusal? <;> rfl

/-- Holds of a node if every directory at or below it lists its entries. -/
def Listed (node : Node) : Prop :=
  ∀ place entries refusal, node.at? place = some (.directory entries refusal) → refusal = none

theorem Listed.at? (h : node.Listed) {place : List Bytes} (hplace : node.at? place = some found) :
    found.Listed := by
  intro names entries refusal hnames
  refine h (place ++ names) entries refusal ?_
  rw [at?_append, hplace]
  exact hnames

theorem not_listed_of_at? {place : List Bytes}
    (hplace : node.at? place = some (.directory entries (some message))) : ¬ node.Listed :=
  fun hlisted => Option.some_ne_none message (hlisted place entries (some message) hplace)

namespace WellFormed

theorem refusal?_eq_none_iff (h : node.WellFormed) : node.refusal? = none ↔ node.Listed := by
  induction h with
  | file content =>
    refine iff_of_true (by rw [refusal?]) fun place entries refusal hplace => ?_
    cases place <;> cases hplace
  | special content =>
    refine iff_of_true (by rw [refusal?]) fun place entries refusal hplace => ?_
    cases place <;> cases hplace
  | @directory entries refusal hnodup hnames hnodes ih =>
    rw [refusal?_directory, Option.or_eq_none_iff, List.findSome?_eq_none_iff]
    constructor
    · rintro ⟨hhere, hbelow⟩ place inner refusal' hplace
      cases place with
      | nil =>
        cases hplace
        exact hhere
      | cons name place =>
        rw [at?_directory_cons, Option.bind_eq_some_iff] at hplace
        obtain ⟨child, hchild, hplace⟩ := hplace
        have hentry := mem_of_lookup_eq_some hchild
        exact (ih _ hentry).1 (hbelow _ hentry) place inner refusal' hplace
    · intro hlisted
      refine ⟨hlisted [] entries refusal rfl, fun entry hentry => (ih entry hentry).2 ?_⟩
      have hchild : (Node.directory entries refusal).at? [entry.1] = some entry.2 := by
        simp [(lookup_eq_some_iff_mem hnodup).2 hentry]
      exact hlisted.at? hchild

/-- A refusal is that of some directory. -/
theorem exists_at?_of_refusal? (h : node.WellFormed) (hrefusal : node.refusal? = some message) :
    ∃ place entries, node.at? place = some (.directory entries (some message)) := by
  induction h with
  | file content => simp [refusal?] at hrefusal
  | special content => simp [refusal?] at hrefusal
  | @directory entries refusal hnodup hnames hnodes ih =>
    rw [refusal?_directory, Option.or_eq_some_iff] at hrefusal
    rcases hrefusal with rfl | ⟨-, hbelow⟩
    · exact ⟨[], entries, rfl⟩
    · obtain ⟨entry, hentry, hchild⟩ := List.exists_of_findSome?_eq_some hbelow
      obtain ⟨place, inner, hplace⟩ := ih entry hentry hchild
      refine ⟨entry.1 :: place, inner, ?_⟩
      rw [at?_directory_cons, (lookup_eq_some_iff_mem hnodup).2 hentry]
      exact hplace

end WellFormed

end Node

namespace FileSystem

variable {fs : FileSystem} {root : Bytes} {entries : List (Bytes × Node)} {refusal : Option Bytes}

/-- Where every directory lists its entries, the JSON files below a root are there. -/
theorem listFiles_of_listed (hfs : fs.WellFormed)
    (hroot : fs.find? root = some (.directory entries))
    (hlisted : (Node.directory entries).Listed) : fs.listFiles root = .ok (jsonFiles entries) :=
  listFiles_of_refusal?_eq_none hroot
    ((hfs.find?_eq_some hroot).refusal?_eq_none_iff.2 hlisted)

/-- Where some directory does not, its message is the error. -/
theorem exists_listFiles_of_not_listed (hfs : fs.WellFormed)
    (hroot : fs.find? root = some (.directory entries refusal))
    (hlisted : ¬ (Node.directory entries refusal).Listed) :
    ∃ place inner message,
      (Node.directory entries refusal).at? place = some (.directory inner (some message)) ∧
      fs.listFiles root = .error ⟨.cannotList message, root⟩ := by
  have hwell := hfs.find?_eq_some hroot
  obtain ⟨message, hmessage⟩ : ∃ message,
      (Node.directory entries refusal).refusal? = some message := by
    rw [← Option.ne_none_iff_exists']
    exact mt hwell.refusal?_eq_none_iff.1 hlisted
  obtain ⟨place, inner, hplace⟩ := hwell.exists_at?_of_refusal? hmessage
  exact ⟨place, inner, message, hplace, listFiles_of_refusal?_eq_some hroot hmessage⟩

end FileSystem

end FieldRules

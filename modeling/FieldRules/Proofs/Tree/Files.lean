import FieldRules.Proofs.FileSystem.WellFormed
import FieldRules.Tree.Files
import Mathlib.Data.List.Sort

/-!
# Files of a tree, each once and in order

* `mem_jsonFiles_iff`: the JSON files below a directory are the places of files there whose last
  name ends in `.json` with something in front of it.
* `pairwise_jsonFiles`: they are ordered name by name, and none comes twice.
-/

namespace FieldRules

variable {entries : List (Bytes × Node)} {names : List Bytes}

theorem Path.isJson_iff {name : Bytes} :
    isJson name = true ↔ ∃ stem, stem ≠ [] ∧ name = stem ++ jsonEnding := by
  simp only [isJson, Bool.and_eq_true, decide_eq_true_eq, List.isSuffixOf_iff_suffix]
  constructor
  · rintro ⟨hlength, stem, rfl⟩
    refine ⟨stem, ?_, rfl⟩
    rintro rfl
    exact absurd hlength (by simp)
  · rintro ⟨stem, hstem, rfl⟩
    exact ⟨by simpa using List.length_pos_iff.2 hstem, List.suffix_append stem jsonEnding⟩

theorem isJsonFile_iff :
    isJsonFile names = true ↔ ∃ stem, stem ≠ [] ∧
      names.getLast? = some (stem ++ Path.jsonEnding) := by
  simp only [isJsonFile, Option.any_eq_true, Path.isJson_iff]
  constructor
  · rintro ⟨name, hname, stem, hstem, rfl⟩
    exact ⟨stem, hstem, hname⟩
  · rintro ⟨stem, hstem, hname⟩
    exact ⟨_, hname, stem, hstem, rfl⟩

/-- The JSON files below a directory are the places of files there whose last name ends in `.json`
with something in front of it. -/
theorem mem_jsonFiles_iff (h : (Node.directory entries).WellFormed) :
    names ∈ jsonFiles entries ↔
      (∃ content, (Node.directory entries).at? names = some (.file content)) ∧
      ∃ stem, stem ≠ [] ∧ names.getLast? = some (stem ++ Path.jsonEnding) := by
  rw [(jsonFiles_perm entries).mem_iff, List.mem_filter, h.mem_files_iff, isJsonFile_iff]

/-- The names of a JSON file below a directory are proper, and there is one at least. -/
theorem isName_of_mem_jsonFiles (h : (Node.directory entries).WellFormed)
    (hnames : names ∈ jsonFiles entries) :
    (∀ name ∈ names, Path.IsName name) ∧ names ≠ [] := by
  obtain ⟨⟨content, hcontent⟩, stem, -, hlast⟩ := (mem_jsonFiles_iff h).1 hnames
  refine ⟨(h.at?_eq_some hcontent).2, ?_⟩
  rintro rfl
  cases hlast

/-! ### Order -/

theorem insertPath_eq_orderedInsert (path : List Bytes) (paths : List (List Bytes)) :
    insertPath path paths = paths.orderedInsert (· ≤ ·) path := by
  induction paths with
  | nil => rfl
  | cons other rest ih => rw [insertPath, List.orderedInsert_cons, ih]

theorem jsonFiles_eq_insertionSort (entries : List (Bytes × Node)) :
    jsonFiles entries =
      ((Node.files (.directory entries)).filter isJsonFile).insertionSort (· ≤ ·) := by
  unfold jsonFiles
  induction (Node.files (.directory entries)).filter isJsonFile with
  | nil => rfl
  | cons path rest ih => rw [List.foldr_cons, ih, insertPath_eq_orderedInsert,
      List.insertionSort_cons]

theorem nodup_jsonFiles (h : (Node.directory entries).WellFormed) : (jsonFiles entries).Nodup :=
  (jsonFiles_perm entries).nodup_iff.2 (h.nodup_files.filter _)

/-- The JSON files below a directory are ordered name by name, and none comes twice. -/
theorem pairwise_jsonFiles (h : (Node.directory entries).WellFormed) :
    (jsonFiles entries).Pairwise (· < ·) := by
  have hordered : (jsonFiles entries).Pairwise (· ≤ ·) := by
    rw [jsonFiles_eq_insertionSort]
    exact List.pairwise_insertionSort _ _
  exact (hordered.and (nodup_jsonFiles h)).imp fun ⟨hle, hne⟩ => Std.lt_of_le_of_ne hle hne

end FieldRules

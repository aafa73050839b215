import FieldRules.FileSystem.Basic

/-!
# Files of a tree

* `jsonFiles` are the JSON files at any depth below a directory, by their names from there and in
  their order.
* `FileSystem.listFiles` are those below the directory that a path names.

Main statement: `jsonFiles_perm`, ordering the files neither drops nor repeats one.
-/

namespace FieldRules

/-- Holds of the names of a path that ends in the name of a JSON file. -/
def isJsonFile (names : List Bytes) : Bool :=
  names.getLast?.any Path.isJson

/-- A path put in its place among ordered paths. -/
def insertPath (path : List Bytes) : List (List Bytes) → List (List Bytes)
  | [] => [path]
  | other :: rest => if path ≤ other then path :: other :: rest else other :: insertPath path rest

/-- The JSON files below a directory, ordered by their names from the directory on. -/
def jsonFiles (entries : List (Bytes × Node)) : List (List Bytes) :=
  ((Node.files (.directory entries)).filter isJsonFile).foldr insertPath []

/-- The JSON files below the directory that a path names. There are none to be had if it, or some
directory below it, refuses to list its entries. -/
def FileSystem.listFiles (fs : FileSystem) (root : Bytes) :
    Except DocumentError (List (List Bytes)) :=
  match fs.find? root with
  | some (.directory entries refusal) =>
    match (Node.directory entries refusal).refusal? with
    | some message => .error ⟨.cannotList message, root⟩
    | none => .ok (jsonFiles entries)
  | _ => .error ⟨.fileNotFound, root⟩

namespace FileSystem

variable {fs : FileSystem} {root : Bytes} {entries : List (Bytes × Node)} {refusal : Option Bytes}

theorem listFiles_of_refusal?_eq_none (hroot : fs.find? root = some (.directory entries refusal))
    (hrefusal : (Node.directory entries refusal).refusal? = none) :
    fs.listFiles root = .ok (jsonFiles entries) := by
  rw [listFiles, hroot]
  simp only [hrefusal]

theorem listFiles_of_refusal?_eq_some {message : Bytes}
    (hroot : fs.find? root = some (.directory entries refusal))
    (hrefusal : (Node.directory entries refusal).refusal? = some message) :
    fs.listFiles root = .error ⟨.cannotList message, root⟩ := by
  rw [listFiles, hroot]
  simp only [hrefusal]

theorem listFiles_of_ne_directory
    (hroot : ∀ entries refusal, fs.find? root ≠ some (.directory entries refusal)) :
    fs.listFiles root = .error ⟨.fileNotFound, root⟩ := by
  unfold listFiles
  split
  · next entries refusal hfound => exact absurd hfound (hroot entries refusal)
  · rfl

end FileSystem

/-- Putting a path in its place adds it and nothing else. -/
theorem insertPath_perm (path : List Bytes) (paths : List (List Bytes)) :
    (insertPath path paths).Perm (path :: paths) := by
  induction paths with
  | nil => exact .refl _
  | cons other rest ih =>
    rw [insertPath]
    split
    · exact .refl _
    · exact (ih.cons other).trans (.swap path other rest)

/-- Ordering the files neither drops nor repeats one. -/
theorem jsonFiles_perm (entries : List (Bytes × Node)) :
    (jsonFiles entries).Perm ((Node.files (.directory entries)).filter isJsonFile) := by
  unfold jsonFiles
  induction (Node.files (.directory entries)).filter isJsonFile with
  | nil => exact .refl _
  | cons path rest ih => exact (insertPath_perm path _).trans (ih.cons path)

end FieldRules

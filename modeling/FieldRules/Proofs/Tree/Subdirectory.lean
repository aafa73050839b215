import FieldRules.Proofs.Tree.Exactness
import Mathlib.Algebra.GroupWithZero.Nat

/-!
# Subdirectories of a tree

* `TreeReport.below`: a report restricted to the files below a place.
* `filterMap_dropPrefix?_jsonFiles`: the JSON files of a subdirectory are those of the whole tree
  below it, in their order.
* `Worker.results_below`: so are their results.
* `FileResult.countP_eq_sum_add`: places apart from one another and what is outside them share the
  files out.
* `Validator.validateTree_restricts`: validating a subdirectory is restricting the report on the
  whole.
* `Validator.validateTree_below_of_length_le`, `Validator.exists_validateTree_below_of_nul`,
  `Validator.exists_validateTree_beside_refusal`: where it is not, as the path is too long or
  holds a NUL byte, or a directory elsewhere is not listed.
-/

namespace FieldRules

/-- Holds of two places neither of which is at or below the other. -/
def Apart (place other : List Bytes) : Prop :=
  ¬ place <+: other ∧ ¬ other <+: place

instance (place other : List Bytes) : Decidable (Apart place other) :=
  inferInstanceAs (Decidable (_ ∧ _))

/-! ### Restricted reports -/

namespace FileResult

/-- The result of a file as it is seen from a place, if the file is below it. -/
def below? (place : List Bytes) (result : FileResult) : Option FileResult :=
  (result.names.dropPrefix? place).map fun names => { result with names }

/-- Holds of the result of a file at or below a place. -/
def isBelow (result : FileResult) (place : List Bytes) : Bool :=
  place.isPrefixOf result.names

/-- The results of files that are below none of some places. -/
def outside (places : List (List Bytes)) (files : List FileResult) : List FileResult :=
  files.filter fun result => !places.any result.isBelow

/-- The results of files that are in the root itself. -/
def direct (files : List FileResult) : List FileResult :=
  files.filter fun result => result.names.length == 1

end FileResult

namespace TreeReport

/-- The report on some results. -/
def ofFiles (files : List FileResult) : TreeReport where
  files
  checked := files.countP FileResult.isChecked
  valid := files.countP FileResult.isValid

/-- A report restricted to the files below a place, as they are seen from there. -/
def below (report : TreeReport) (place : List Bytes) : TreeReport :=
  ofFiles (report.files.filterMap (FileResult.below? place))

/-- The files of a restricted report go by their names behind the place. -/
theorem map_names_below (report : TreeReport) (place : List Bytes) :
    (report.below place).files.map FileResult.names =
      (report.files.map FileResult.names).filterMap (·.dropPrefix? place) := by
  rw [below, ofFiles, List.map_filterMap, List.filterMap_map]
  refine List.filterMap_congr fun result _ => ?_
  rw [FileResult.below?, Option.map_map, Function.comp_apply]
  exact Option.map_id'

end TreeReport

/-! ### Names behind a place -/

theorem Path.below_append (directory : Bytes) (place names : List Bytes) :
    below directory (place ++ names) = below (below directory place) names := by
  rw [below, below, below, List.foldl_append]

theorem dropPrefix?_eq_some_iff_append {names place rest : List Bytes} :
    names.dropPrefix? place = some rest ↔ names = place ++ rest := by
  simp [List.dropPrefix?_eq_some_iff]

theorem isSome_dropPrefix? (names place : List Bytes) :
    (names.dropPrefix? place).isSome = place.isPrefixOf names := by
  rw [Bool.eq_iff_iff, Option.isSome_iff_exists, List.isPrefixOf_iff_prefix]
  simp only [dropPrefix?_eq_some_iff_append]
  exact exists_congr fun rest => eq_comm

/-- What is in front of two places has no part in their order. -/
theorem lt_of_append_lt_append {place names others : List Bytes}
    (h : place ++ names < place ++ others) : names < others := by
  induction place with
  | nil => exact h
  | cons name place ih =>
    rcases List.cons_lt_cons_iff.1 h with hlt | ⟨-, hrest⟩
    · exact absurd hlt (List.lt_irrefl name)
    · exact ih hrest

/-! ### Files of a subdirectory -/

variable {entries inner : List (Bytes × Node)} {place names : List Bytes}

theorem append_mem_jsonFiles_iff (h : (Node.directory entries).WellFormed)
    (hplace : (Node.directory entries).at? place = some (.directory inner)) :
    place ++ names ∈ jsonFiles entries ↔ names ∈ jsonFiles inner := by
  rw [mem_jsonFiles_iff h, mem_jsonFiles_iff (h.at?_eq_some hplace).1, Node.at?_append, hplace,
    Option.bind_some]
  refine and_congr_right fun ⟨content, hcontent⟩ => ?_
  -- the directory itself is no file
  have hne : names ≠ [] := by
    rintro rfl
    cases hcontent
  rw [List.getLast?_append_of_ne_nil place hne]

/-- The JSON files of a subdirectory are those of the whole tree below it, in their order. -/
theorem filterMap_dropPrefix?_jsonFiles (h : (Node.directory entries).WellFormed)
    (hplace : (Node.directory entries).at? place = some (.directory inner)) :
    (jsonFiles entries).filterMap (·.dropPrefix? place) = jsonFiles inner := by
  refine List.Pairwise.eq_of_mem_iff ?_ (pairwise_jsonFiles (h.at?_eq_some hplace).1) fun names =>
    ?_
  · refine (pairwise_jsonFiles h).filterMap _ fun first second hlt rest hrest other hother => ?_
    rw [dropPrefix?_eq_some_iff_append.1 hrest, dropPrefix?_eq_some_iff_append.1 hother] at hlt
    exact lt_of_append_lt_append hlt
  · simp only [List.mem_filterMap, dropPrefix?_eq_some_iff_append, exists_eq_right,
      append_mem_jsonFiles_iff h hplace]

/-! ### Results of a subdirectory -/

/-- The result of a file, seen from a place, is that of the names behind the place. -/
theorem FileResult.bind_below?_of? (place names : List Bytes) (evaluation : Except Failure Report) :
    (of? names evaluation).bind (below? place) =
      (names.dropPrefix? place).bind (of? · evaluation) := by
  unfold of?
  split <;> cases hdrop : names.dropPrefix? place <;> simp [below?, hdrop]

namespace Worker

variable {validator : Validator} {fs : FileSystem} {root : Bytes}

theorem evaluation_append [DoublePrinter] (place names : List Bytes) :
    evaluation validator fs root (place ++ names) =
      evaluation validator fs (Path.below root place) names := by
  rw [evaluation, evaluation, Path.below_append]

theorem NoOverflow.below (h : (Node.directory entries).WellFormed)
    (hplace : (Node.directory entries).at? place = some (.directory inner))
    (hnumbers : NoOverflow fs root (jsonFiles entries)) :
    NoOverflow fs (Path.below root place) (jsonFiles inner) := by
  intro names hnames content token hcontent
  rw [← Path.below_append] at hcontent
  exact hnumbers (place ++ names) ((append_mem_jsonFiles_iff h hplace).2 hnames)
    content token hcontent

/-- The results of the files of a subdirectory are those of the whole tree below it, as they are
seen from there. -/
theorem results_below [DoublePrinter] (h : (Node.directory entries).WellFormed)
    (hplace : (Node.directory entries).at? place = some (.directory inner)) :
    results validator fs (Path.below root place) (jsonFiles inner) =
      (results validator fs root (jsonFiles entries)).filterMap (FileResult.below? place) := by
  have hnames (names : List Bytes) :
      ((names.dropPrefix? place).bind fun rest =>
        FileResult.of? rest (evaluation validator fs (Path.below root place) rest).value) =
      (FileResult.of? names (evaluation validator fs root names).value).bind
        (FileResult.below? place) := by
    rw [FileResult.bind_below?_of?]
    cases hdrop : names.dropPrefix? place with
    | none => rfl
    | some rest => rw [dropPrefix?_eq_some_iff_append.1 hdrop, evaluation_append, Option.bind_some,
        Option.bind_some]
  rw [results, results, ← filterMap_dropPrefix?_jsonFiles h hplace, List.filterMap_filterMap,
    List.filterMap_filterMap]
  exact List.filterMap_congr fun names _ => hnames names

end Worker

/-! ### Counts -/

namespace FileResult

variable {q : FileResult → Bool} {places : List (List Bytes)} {files : List FileResult}

/-- Counting what is seen from a place counts the files below it. -/
theorem countP_filterMap_below? (hq : ∀ result names, q { result with names } = q result)
    (place : List Bytes) (files : List FileResult) :
    (files.filterMap (below? place)).countP q = (files.filter (·.isBelow place)).countP q := by
  rw [List.countP_filterMap, List.countP_filter]
  refine List.countP_congr fun result _ => ?_
  rw [isBelow, ← isSome_dropPrefix?, below?]
  cases result.names.dropPrefix? place <;> simp [hq]

theorem isBelow_iff {result : FileResult} {place : List Bytes} :
    result.isBelow place ↔ place <+: result.names :=
  List.isPrefixOf_iff_prefix

theorem not_isBelow_of_apart {result : FileResult} {place other : List Bytes}
    (hapart : Apart place other) (hother : result.isBelow other = true) :
    result.isBelow place = false := by
  rw [← Bool.not_eq_true]
  intro hplace
  rcases List.prefix_or_prefix_of_prefix (isBelow_iff.1 hplace) (isBelow_iff.1 hother) with
      hprefix | hprefix
  · exact hapart.1 hprefix
  · exact hapart.2 hprefix

theorem outside_cons (place : List Bytes) (places : List (List Bytes)) (files : List FileResult) :
    outside (place :: places) files = outside places (files.filter fun result =>
      !result.isBelow place) := by
  rw [outside, outside, List.filter_filter]
  refine List.filter_congr fun result _ => ?_
  rw [List.any_cons, Bool.not_or, Bool.and_comm]

/-- Places apart from one another and what is outside them share the files out. -/
theorem countP_eq_sum_add (hapart : places.Pairwise Apart) (q : FileResult → Bool)
    (files : List FileResult) :
    files.countP q =
      (places.map fun place => (files.filter (·.isBelow place)).countP q).sum +
        (outside places files).countP q := by
  induction places generalizing files with
  | nil => simp [outside]
  | cons place places ih =>
    obtain ⟨hplace, hplaces⟩ := List.pairwise_cons.1 hapart
    -- taking away the files below one place leaves those below the others
    have hothers : ∀ other ∈ places,
        ((files.filter fun result => !result.isBelow place).filter (·.isBelow other)).countP q =
        (files.filter (·.isBelow other)).countP q := by
      intro other hother
      rw [List.filter_filter]
      congr 1
      refine List.filter_congr fun result _ => ?_
      cases hresult : result.isBelow other with
      | false => rfl
      | true => rw [not_isBelow_of_apart (hplace other hother) hresult]; rfl
    rw [List.countP_eq_countP_filter_add files q (·.isBelow place),
      ih hplaces (files.filter fun result => !result.isBelow place), List.map_congr_left hothers,
      List.map_cons, List.sum_cons, outside_cons, Nat.add_assoc]

/-- Places apart from one another and what is outside them share out whatever is counted of a result
without its names. -/
theorem countP_eq_sum_below_add (hq : ∀ result names, q { result with names } = q result)
    (hapart : places.Pairwise Apart) (files : List FileResult) :
    files.countP q =
      (places.map fun place => (files.filterMap (below? place)).countP q).sum +
        (outside places files).countP q := by
  simp only [countP_filterMap_below? hq]
  exact countP_eq_sum_add hapart q files

end FileResult

/-! ### Subdirectories -/

/-- Holds of the place of a directory below a root that the path of the root with the place
names. -/
structure FileSystem.IsSubdirectory (fs : FileSystem) (root : Bytes)
    (entries : List (Bytes × Node)) (place : List Bytes) (inner : List (Bytes × Node)) : Prop where
  ne_nil : place ≠ []
  at_eq : (Node.directory entries).at? place = some (.directory inner)
  find_eq : fs.find? (Path.below root place) = some (.directory inner)

namespace FileSystem

variable {fs : FileSystem} {root : Bytes}

/-- The path of a root with the place of a directory names that directory, unless it is too long or
holds a NUL byte. -/
theorem isSubdirectory_of_length_lt (hfs : fs.WellFormed)
    (hroot : fs.find? root = some (.directory entries)) (hnul : 0 ∉ root) (hne : place ≠ [])
    (hplace : (Node.directory entries).at? place = some (.directory inner))
    (hlength : (Path.below root place).length < Path.lengthLimit) :
    fs.IsSubdirectory root entries place inner := by
  obtain ⟨-, hproper⟩ := (hfs.find?_eq_some hroot).at?_eq_some hplace
  rw [Path.below_eq_append hproper hne] at hlength
  refine ⟨hne, hplace, ?_⟩
  rw [Path.below_eq_append hproper hne, find?_append hroot hnul hproper hne, if_pos hlength, hplace]

theorem find?_below_of_length_le {found : Node} (hroot : fs.find? root = some found)
    (hnul : 0 ∉ root) (hproper : ∀ name ∈ place, Path.IsName name) (hne : place ≠ [])
    (hlength : Path.lengthLimit ≤ (Path.below root place).length) :
    fs.find? (Path.below root place) = none := by
  rw [Path.below_eq_append hproper hne] at hlength ⊢
  rw [find?_append hroot hnul hproper hne, if_neg (Nat.not_lt.2 hlength)]

/-- Behind a NUL byte a place does not count. -/
theorem find?_below_of_nul (fs : FileSystem) (hnul : 0 ∈ root)
    (hproper : ∀ name ∈ place, Path.IsName name) (hne : place ≠ []) :
    fs.find? (Path.below root place) = fs.find? root := by
  rw [Path.below_eq_append hproper hne]
  exact find?_append_of_nul fs hnul (Path.isAbsolute_joinWith hproper)

end FileSystem

/-- On paths that are too long no file is read. -/
theorem Worker.NoOverflow.of_length_le {fs : FileSystem} {root : Bytes} (hfs : fs.WellFormed)
    (hroot : fs.find? root = some (.directory entries)) (hnul : 0 ∉ root)
    (hlong : ∀ names ∈ jsonFiles entries, Path.lengthLimit ≤ (Path.below root names).length) :
    NoOverflow fs root (jsonFiles entries) := by
  intro names hnames content token htext
  obtain ⟨hproper, hne⟩ := isName_of_mem_jsonFiles (hfs.find?_eq_some hroot) hnames
  rw [FileSystem.readText_eq_ok_iff, FileSystem.content?,
    FileSystem.find?_below_of_length_le hroot hnul hproper hne (hlong names hnames)] at htext
  cases htext

/-- Behind a NUL byte in a root no file is read. -/
theorem Worker.NoOverflow.of_nul {fs : FileSystem} {root : Bytes} (hfs : fs.WellFormed)
    (hroot : fs.find? root = some (.directory entries)) (hnul : 0 ∈ root) :
    NoOverflow fs root (jsonFiles entries) := by
  intro names hnames content token htext
  obtain ⟨hproper, hne⟩ := isName_of_mem_jsonFiles (hfs.find?_eq_some hroot) hnames
  have hsame := FileSystem.find?_below_of_nul fs hnul hproper hne
  rw [FileSystem.readText_of_directory (hsame.trans hroot)] at htext
  cases htext

/-- Only a directory has something below it. -/
theorem Node.eq_directory_of_at?_cons {node found : Node} {name : Bytes}
    (h : node.at? (name :: names) = some found) :
    ∃ inner refusal, node = .directory inner refusal := by
  cases node with
  | file content => cases h
  | special content => cases h
  | directory inner refusal => exact ⟨inner, refusal, rfl⟩

theorem Node.mem_of_at?_singleton {found : Node} {name : Bytes}
    (h : (Node.directory entries).at? [name] = some found) :
    (name, found) ∈ entries := by
  rw [at?_directory_cons, Option.bind_eq_some_iff] at h
  obtain ⟨child, hchild, hfound⟩ := h
  cases hfound
  exact mem_of_lookup_eq_some hchild

/-- Files that are below no directory in a root are in the root itself, and the other way round. -/
theorem FileResult.outside_eq_direct {files : List FileResult} {places : List (List Bytes)}
    (hfiles : ∀ result ∈ files, ∃ content,
      (Node.directory entries).at? result.names = some (.file content))
    (hplaces : ∀ place ∈ places, place ≠ [] ∧ ∃ inner,
      (Node.directory entries).at? place = some (.directory inner))
    (hall : ∀ name inner refusal,
      (Node.directory entries).at? [name] = some (.directory inner refusal) → [name] ∈ places) :
    outside places files = direct files := by
  refine List.filter_congr fun result hresult => ?_
  obtain ⟨content, hcontent⟩ := hfiles result hresult
  rw [Bool.eq_iff_iff, beq_iff_eq, Bool.not_eq_true', List.any_eq_false]
  constructor
  · intro hnone
    match hnames : result.names with
    | [] =>
      rw [hnames] at hcontent
      cases hcontent
    | [name] => rfl
    | name :: other :: rest =>
      -- the first name is that of a directory in the root
      rw [hnames, ← List.singleton_append, Node.at?_append, Option.bind_eq_some_iff] at hcontent
      obtain ⟨child, hchild, hrest⟩ := hcontent
      obtain ⟨inner, refusal, rfl⟩ := Node.eq_directory_of_at?_cons hrest
      refine absurd (isBelow_iff.2 ?_) (hnone [name] (hall name inner refusal hchild))
      rw [hnames]
      exact List.prefix_append [name] (other :: rest)
  · intro hlength place hplace hbelow
    obtain ⟨hne, inner, hinner⟩ := hplaces place hplace
    -- a place that the one name starts with is that name, which is a file's
    have hlast : result.names.length ≤ place.length := hlength ▸ List.length_pos_iff.2 hne
    rw [← (isBelow_iff.1 hbelow).eq_of_length_le hlast, hinner] at hcontent
    cases hcontent

namespace Validator

variable {fs : FileSystem} {root : Bytes}

/-- The report on a root restricted to a subdirectory is the report on the subdirectory. -/
theorem validateTree_below [DoublePrinter] (validator : Validator) (hfs : fs.WellFormed)
    (hroot : fs.find? root = some (.directory entries))
    (hlisted : (Node.directory entries).Listed)
    (hnumbers : Worker.NoOverflow fs root (jsonFiles entries))
    (hplace : fs.IsSubdirectory root entries place inner) (threads cores : Nat) :
    (validator.validateTree fs (Path.below root place) threads cores).value =
      .ok ((TreeReport.ofFiles (Worker.results validator fs root (jsonFiles entries))).below
        place) := by
  have hwell : (Node.directory entries).WellFormed := hfs.find?_eq_some hroot
  have hresults : Worker.AllResults validator fs (Path.below root place) (jsonFiles inner) :=
    Worker.allResults_of_noOverflow (hnumbers.below hwell hplace.at_eq)
  have hpaths := FileSystem.listFiles_of_listed hfs hplace.find_eq (hlisted.at? hplace.at_eq)
  rw [Worker.validateTree_eq_report hpaths hresults, Worker.results_below hwell hplace.at_eq]
  rfl

theorem exists_validateTree_map_names [DoublePrinter] (validator : Validator) (hfs : fs.WellFormed)
    (hroot : fs.find? root = some (.directory entries)) (hlisted : (Node.directory entries).Listed)
    (hnumbers : Worker.NoOverflow fs root (jsonFiles entries)) (threads cores : Nat) :
    ∃ report : TreeReport, (validator.validateTree fs root threads cores).value = .ok report ∧
      report.files.map FileResult.names = jsonFiles entries := by
  obtain ⟨report, hvalue, -, hexact⟩ :=
    exists_validateTree_exact validator hfs hroot hlisted hnumbers threads cores
  exact ⟨report, hvalue, hexact.map_names (hfs.find?_eq_some hroot)⟩

/-- Validating a subdirectory is restricting the report on the whole. On a directory of a
well-formed file system whose directories are all listed and in which no JSON file holds a number
beyond the range of binary64, and for any numbers of threads, the report on a subdirectory that the
path of the root with its place names has the files of the whole report below that place, in their
order, by their names behind the place and with their outcomes or messages, and counts these. A root
without NUL byte and a path that is not too long name the subdirectory. So the counts of
subdirectories apart from one another, with those of the files outside them, add up to the counts of
the whole; if every directory in the root is among them, these are the files in the root itself. -/
theorem validateTree_restricts [DoublePrinter] (validator : Validator)
    {entries : List (Bytes × Node)} (hfs : fs.WellFormed)
    (hroot : fs.find? root = some (.directory entries))
    (hlisted : (Node.directory entries).Listed)
    (hnumbers : Worker.NoOverflow fs root (jsonFiles entries)) (threads cores : Nat) :
    ∃ whole : TreeReport, (validator.validateTree fs root threads cores).value = .ok whole ∧
      (∀ place inner, place ≠ [] → (Node.directory entries).at? place = some (.directory inner) →
        0 ∉ root →
        (Path.below root place).length < Path.lengthLimit →
          fs.IsSubdirectory root entries place inner) ∧
      (∀ place inner, fs.IsSubdirectory root entries place inner → ∀ threads' cores' : Nat,
        (validator.validateTree fs (Path.below root place) threads' cores').value =
          .ok (whole.below place)) ∧
      ∀ (places : List (List Bytes)) (part : List Bytes → TreeReport), places.Pairwise Apart →
        (∀ place ∈ places, ∃ (inner : List (Bytes × Node)) (threads' cores' : Nat),
          fs.IsSubdirectory root entries place inner ∧
          (validator.validateTree fs (Path.below root place) threads' cores').value =
            .ok (part place)) →
        let rest := FileResult.outside places whole.files
        whole.checked = (places.map fun place => (part place).checked).sum +
          rest.countP FileResult.isChecked ∧
        whole.valid = (places.map fun place => (part place).valid).sum +
          rest.countP FileResult.isValid ∧
        ((∀ name inner, (Node.directory entries).at? [name] = some (.directory inner) →
          [name] ∈ places) →
          rest = FileResult.direct whole.files) := by
  have hresults : Worker.AllResults validator fs root (jsonFiles entries) :=
    Worker.allResults_of_noOverflow hnumbers
  refine ⟨TreeReport.ofFiles (Worker.results validator fs root (jsonFiles entries)),
    Worker.validateTree_eq_report (FileSystem.listFiles_of_listed hfs hroot hlisted)
      hresults threads cores,
    fun place inner hne hplace hnul =>
      FileSystem.isSubdirectory_of_length_lt hfs hroot hnul hne hplace,
    fun place inner hplace => validateTree_below validator hfs hroot hlisted hnumbers hplace, ?_⟩
  intro places part hapart hparts
  have hpart : ∀ place ∈ places,
      part place =
        (TreeReport.ofFiles (Worker.results validator fs root (jsonFiles entries))).below
        place := by
    intro place hplace
    obtain ⟨inner, threads', cores', hsub, hvalue⟩ := hparts place hplace
    rw [validateTree_below validator hfs hroot hlisted hnumbers hsub] at hvalue
    exact (Except.ok.inj hvalue).symm
  refine ⟨?_, ?_, fun hall => ?_⟩
  · rw [List.map_congr_left fun place hplace => congrArg TreeReport.checked (hpart place hplace)]
    exact FileResult.countP_eq_sum_below_add (fun _ _ => rfl) hapart _
  · rw [List.map_congr_left fun place hplace => congrArg TreeReport.valid (hpart place hplace)]
    exact FileResult.countP_eq_sum_below_add (fun _ _ => rfl) hapart _
  · refine FileResult.outside_eq_direct (fun result hresult => ?_) (fun place hplace => ?_)
      (fun name inner refusal hinner => ?_ : ∀ name inner refusal,
        (Node.directory entries).at? [name] = some (.directory inner refusal) → [name] ∈ places)
    · exact ((mem_jsonFiles_iff (hfs.find?_eq_some hroot)).1 (Worker.mem_results_iff.1 hresult).1).1
    · obtain ⟨inner, -, -, hsub, -⟩ := hparts place hplace
      exact ⟨hsub.ne_nil, inner, hsub.at_eq⟩
    · cases hlisted [name] inner refusal hinner
      exact hall name inner hinner

/-- Directories `a` and `a-b` next to a file `a.json`, with a directory in `a`. The file in `a`
comes first by its names, and as a text its path would be the last. -/
theorem validateTree_restricts_of_two_subdirectories :
    ∃ (fs : FileSystem) (entries : List (Bytes × Node)) (whole : TreeReport),
      entries = [(utf8 "a.json", .file (utf8 "1")),
        (utf8 "a-b", .directory [(utf8 "x.json", .file (utf8 "2"))]),
        (utf8 "a", .directory [(utf8 "b", .directory [(utf8 "y.json", .file (utf8 "]"))])])] ∧
      fs = ⟨[(utf8 "t", .directory entries)], []⟩ ∧
      (validateTree ⟨[], {}⟩ fs (utf8 "t") 2 0).value = .ok whole ∧
      whole.files.map FileResult.names =
        [[utf8 "a", utf8 "b", utf8 "y.json"], [utf8 "a-b", utf8 "x.json"], [utf8 "a.json"]] ∧
      (validateTree ⟨[], {}⟩ fs (utf8 "t/a/b") 1 0).value = .ok (whole.below [utf8 "a", utf8 "b"]) ∧
      (whole.below [utf8 "a", utf8 "b"]).files.map FileResult.names = [[utf8 "y.json"]] ∧
      whole.checked = ([[utf8 "a"], [utf8 "a-b"]].map fun place =>
        (whole.below place).checked).sum +
        (FileResult.direct whole.files).countP FileResult.isChecked := by
  obtain ⟨entries, hentries⟩ : ∃ entries : List (Bytes × Node),
      entries = [(utf8 "a.json", .file (utf8 "1")),
        (utf8 "a-b", .directory [(utf8 "x.json", .file (utf8 "2"))]),
        (utf8 "a", .directory [(utf8 "b", .directory [(utf8 "y.json", .file (utf8 "]"))])])] :=
    ⟨_, rfl⟩
  obtain ⟨fs, hfs⟩ : ∃ fs : FileSystem, fs = ⟨[(utf8 "t", .directory entries)], []⟩ := ⟨_, rfl⟩
  have hwell : fs.WellFormed := by
    rw [hfs]
    refine .singleton (by decide) (.directory (by rw [hentries]; decide)
      (by rw [hentries]; decide) ?_)
    rw [hentries]
    simpa using ⟨.file _, .singleton (by decide) (.file _),
      .singleton (by decide) (.singleton (by decide) (.file _))⟩
  have hroot : fs.find? (utf8 "t") = some (.directory entries) := by
    rw [hfs]
    rfl
  have hfiles : jsonFiles entries =
      [[utf8 "a", utf8 "b", utf8 "y.json"], [utf8 "a-b", utf8 "x.json"], [utf8 "a.json"]] := by
    rw [hentries]
    rfl
  have hlisted : (Node.directory entries).Listed :=
    (hwell.find?_eq_some hroot).refusal?_eq_none_iff.1 (by rw [hentries]; rfl)
  have hnumbers : Worker.NoOverflow fs (utf8 "t") (jsonFiles entries) := by
    rw [hfiles, hfs, hentries]
    decide
  obtain ⟨whole, hwhole, hsubdirectory, hbelow, hcounts⟩ :=
    validateTree_restricts ⟨[], {}⟩ hwell hroot hlisted hnumbers 2 0
  obtain ⟨report, hreport, hnames⟩ :=
    exists_validateTree_map_names ⟨[], {}⟩ hwell hroot hlisted hnumbers 2 0
  cases Except.ok.inj (hwhole.symm.trans hreport)
  rw [hfiles] at hnames
  have hsub (place : List Bytes) (inner : List (Bytes × Node)) (hplace : place ≠ [])
      (hinner : (Node.directory entries).at? place = some (.directory inner))
      (hlength : (Path.below (utf8 "t") place).length < Path.lengthLimit) :=
    hsubdirectory place inner hplace hinner (by decide) hlength
  refine ⟨fs, entries, whole, hentries, hfs, hwhole, hnames, ?_, ?_, ?_⟩
  · exact hbelow [utf8 "a", utf8 "b"] _ (hsub _ _ (by simp) (by rw [hentries]; rfl) (by decide)) 1 0
  · rw [TreeReport.map_names_below, hnames]
    rfl
  · have hparts : ∀ place ∈ [[utf8 "a"], [utf8 "a-b"]],
        ∃ (inner : List (Bytes × Node)) (threads cores : Nat),
        fs.IsSubdirectory (utf8 "t") entries place inner ∧
        (validateTree ⟨[], {}⟩ fs (Path.below (utf8 "t") place) threads cores).value =
          .ok (whole.below place) := by
      intro place hplace
      rcases List.mem_pair.1 hplace with rfl | rfl
      · have ha := hsub [utf8 "a"] _ (by simp) (by rw [hentries]; rfl) (by decide)
        exact ⟨_, 1, 0, ha, hbelow _ _ ha 1 0⟩
      · have hab := hsub [utf8 "a-b"] _ (by simp) (by rw [hentries]; rfl) (by decide)
        exact ⟨_, 1, 0, hab, hbelow _ _ hab 1 0⟩
    have hall : ∀ name inner, (Node.directory entries).at? [name] = some (.directory inner) →
        [name] ∈ [[utf8 "a"], [utf8 "a-b"]] := by
      intro name inner hinner
      have hmem := Node.mem_of_at?_singleton hinner
      simp only [hentries, List.mem_cons, Prod.mk.injEq, reduceCtorEq, and_false, false_or,
        List.not_mem_nil, or_false] at hmem
      rcases hmem with ⟨rfl, -⟩ | ⟨rfl, -⟩ <;> decide
    obtain ⟨hchecked, -, hdirect⟩ :=
      hcounts [[utf8 "a"], [utf8 "a-b"]] whole.below (by decide) hparts
    rw [hchecked, hdirect hall]

/-- No directory has a path that is too long. -/
theorem validateTree_below_of_length_le [DoublePrinter] (validator : Validator) {found : Node}
    (hroot : fs.find? root = some found) (hnul : 0 ∉ root)
    (hproper : ∀ name ∈ place, Path.IsName name) (hne : place ≠ [])
    (hlong : Path.lengthLimit ≤ (Path.below root place).length) (threads cores : Nat) :
    validator.validateTree fs (Path.below root place) threads cores =
      ⟨.error (.document ⟨.fileNotFound, Path.below root place⟩), []⟩ := by
  have hnone := FileSystem.find?_below_of_length_le hroot hnul hproper hne hlong
  exact Worker.validateTree_of_error (FileSystem.listFiles_of_ne_directory (by simp [hnone])) ..

/-- Below a root with a NUL byte it is the root that is validated once more. -/
theorem exists_validateTree_below_of_nul [DoublePrinter] (validator : Validator)
    (hfs : fs.WellFormed) (hroot : fs.find? root = some (.directory entries))
    (hlisted : (Node.directory entries).Listed) (hnul : 0 ∈ root)
    (hproper : ∀ name ∈ place, Path.IsName name) (hne : place ≠ []) (threads cores : Nat) :
    ∃ part : TreeReport,
      (validator.validateTree fs (Path.below root place) threads cores).value = .ok part ∧
      part.files.map FileResult.names = jsonFiles entries := by
  have hsame := (FileSystem.find?_below_of_nul fs hnul hproper hne).trans hroot
  have hbelow : 0 ∈ Path.below root place := by
    obtain ⟨between, hbetween⟩ := Path.exists_append_eq root
    rw [Path.below_eq_append hproper hne, hbetween _ (Path.isAbsolute_joinWith hproper)]
    simp [hnul]
  exact exists_validateTree_map_names validator hfs hsame hlisted (.of_nul hfs hsame hbelow)
    threads cores

/-- A directory that refuses to list its entries takes the report from every directory that it is
in, and from no other one. -/
theorem exists_validateTree_beside_refusal [DoublePrinter] (validator : Validator)
    {entries : List (Bytes × Node)} (hfs : fs.WellFormed)
    (hroot : fs.find? root = some (.directory entries))
    (hrefused : ¬ (Node.directory entries).Listed)
    (hplace : fs.IsSubdirectory root entries place inner)
    (hlisted : (Node.directory inner).Listed)
    (hnumbers : Worker.NoOverflow fs root (jsonFiles entries)) (threads cores : Nat) :
    (∃ message, (validator.validateTree fs root threads cores).value =
      .error (.document ⟨.cannotList message, root⟩)) ∧
    ∃ part : TreeReport,
      (validator.validateTree fs (Path.below root place) threads cores).value = .ok part ∧
      part.files.map FileResult.names = jsonFiles inner := by
  obtain ⟨-, -, message, -, herror⟩ := FileSystem.exists_listFiles_of_not_listed hfs hroot hrefused
  refine ⟨⟨message, ?_⟩, exists_validateTree_map_names validator hfs hplace.find_eq hlisted
    (hnumbers.below (hfs.find?_eq_some hroot) hplace.at_eq) threads cores⟩
  rw [Worker.validateTree_of_error herror]

/-- Where the path of a root with a place names nothing, or something else, that is what is
validated: a path that is too long names nothing, though the root lists the files below it; and a
path ends at its first NUL byte, so that what stands behind one in the root does not count. Where a
directory refuses to list its entries, there is no report on the root, but still one on another
directory in it. -/
theorem validateTree_not_restricted :
    ∃ (fs : FileSystem) (entries refused inner : List (Bytes × Node)),
      inner = [(utf8 "y.json", .file (utf8 "1"))] ∧ entries = [(utf8 "sub", .directory inner)] ∧
      refused = [(utf8 "sub", .directory inner),
        (utf8 "v", .directory [] (utf8 "Permission denied"))] ∧
      fs = ⟨[(utf8 "t", .directory entries), (utf8 "u", .directory refused)], []⟩ ∧ fs.WellFormed ∧
      (Node.directory entries).at? [utf8 "sub"] = some (.directory inner) ∧
      (∃ (root : Bytes) (whole : TreeReport), root = utf8 "t" ++ List.replicate 4092 Ascii.slash ∧
        fs.find? root = some (.directory entries) ∧ Worker.NoOverflow fs root (jsonFiles entries) ∧
        (validateTree ⟨[], {}⟩ fs root 1 0).value = .ok whole ∧
        (whole.below [utf8 "sub"]).files.map FileResult.names = [[utf8 "y.json"]] ∧
        (validateTree ⟨[], {}⟩ fs (Path.below root [utf8 "sub"]) 1 0).value =
          .error (.document ⟨.fileNotFound, Path.below root [utf8 "sub"]⟩)) ∧
      (∃ (root : Bytes) (whole part : TreeReport), root = utf8 "t" ++ [0] ∧
        fs.find? root = some (.directory entries) ∧ Worker.NoOverflow fs root (jsonFiles entries) ∧
        (validateTree ⟨[], {}⟩ fs root 1 0).value = .ok whole ∧
        (whole.below [utf8 "sub"]).files.map FileResult.names = [[utf8 "y.json"]] ∧
        (validateTree ⟨[], {}⟩ fs (Path.below root [utf8 "sub"]) 1 0).value = .ok part ∧
        part.files.map FileResult.names = [[utf8 "sub", utf8 "y.json"]]) ∧
      ∃ (message : Bytes) (part : TreeReport),
        fs.IsSubdirectory (utf8 "u") refused [utf8 "sub"] inner ∧
        Worker.NoOverflow fs (utf8 "u") (jsonFiles refused) ∧
        (validateTree ⟨[], {}⟩ fs (utf8 "u") 1 0).value =
          .error (.document ⟨.cannotList message, utf8 "u"⟩) ∧
        (validateTree ⟨[], {}⟩ fs (Path.below (utf8 "u") [utf8 "sub"]) 1 0).value = .ok part ∧
        part.files.map FileResult.names = [[utf8 "y.json"]] := by
  obtain ⟨inner, hinner⟩ : ∃ inner : List (Bytes × Node),
      inner = [(utf8 "y.json", .file (utf8 "1"))] :=
    ⟨_, rfl⟩
  obtain ⟨entries, hentries⟩ : ∃ entries : List (Bytes × Node),
      entries = [(utf8 "sub", .directory inner)] := ⟨_, rfl⟩
  obtain ⟨refused, hrefused⟩ : ∃ refused : List (Bytes × Node), refused =
      [(utf8 "sub", .directory inner), (utf8 "v", .directory [] (utf8 "Permission denied"))] :=
    ⟨_, rfl⟩
  obtain ⟨fs, hfs⟩ : ∃ fs : FileSystem,
      fs = ⟨[(utf8 "t", .directory entries), (utf8 "u", .directory refused)], []⟩ := ⟨_, rfl⟩
  have hwellInner : (Node.directory inner).WellFormed := hinner ▸ .singleton (by decide) (.file _)
  have hwellEntries : (Node.directory entries).WellFormed :=
    hentries ▸ .singleton (by decide) hwellInner
  have hwellRefused : (Node.directory refused).WellFormed :=
    hrefused ▸ .pair (by decide) (by decide) (by decide) hwellInner .empty
  have hwell : fs.WellFormed :=
    hfs ▸ .pair (by decide) (by decide) (by decide) hwellEntries hwellRefused
  have ht : fs.find? (utf8 "t") = some (.directory entries) := by
    rw [hfs]
    rfl
  have hfiles : jsonFiles entries = [[utf8 "sub", utf8 "y.json"]] := by
    rw [hentries, hinner]
    rfl
  have hlisted : (Node.directory entries).Listed :=
    hwellEntries.refusal?_eq_none_iff.1 (by rw [hentries, hinner]; rfl)
  have hreport (root : Bytes) (hroot : fs.find? root = some (.directory entries))
      (hnumbers : Worker.NoOverflow fs root (jsonFiles entries)) :=
    exists_validateTree_map_names ⟨[], {}⟩ hwell hroot hlisted hnumbers 1 0
  have hbelow (whole : TreeReport) (hnames : whole.files.map FileResult.names = jsonFiles entries) :
      (whole.below [utf8 "sub"]).files.map FileResult.names = [[utf8 "y.json"]] := by
    rw [TreeReport.map_names_below, hnames, hfiles]
    rfl
  refine ⟨fs, entries, refused, inner, hinner, hentries, hrefused, hfs, hwell,
    by rw [hentries]; rfl, ?_, ?_, ?_⟩
  · obtain ⟨root, heq⟩ : ∃ root, root = utf8 "t" ++ List.replicate 4092 Ascii.slash := ⟨_, rfl⟩
    have hnul : 0 ∉ root := by
      rw [heq, List.mem_append, not_or]
      exact ⟨by decide, fun hmem => Path.nul_ne_slash (List.eq_of_mem_replicate hmem)⟩
    have hroot : fs.find? root = some (.directory entries) :=
      heq ▸ FileSystem.find?_append_slashes ht (by decide) 4092 (by decide)
    have hlength : root.length + 3 = Path.lengthLimit := by
      rw [heq, List.length_append, List.length_replicate]
      rfl
    have hlong (names : List Bytes) (hproper : ∀ name ∈ names, Path.IsName name) (hne : names ≠ [])
        (hthree : 3 ≤ (Bytes.joinWith [Ascii.slash] names).length) :
        Path.lengthLimit ≤ (Path.below root names).length := by
      have hbelow := @Path.length_add_le_length_below root names hproper hne
      omega
    have hnumbers : Worker.NoOverflow fs root (jsonFiles entries) := by
      refine .of_length_le hwell hroot hnul fun names hnames => ?_
      rw [hfiles, List.mem_singleton] at hnames
      exact hnames ▸ hlong _ (by decide) (by simp) (by decide)
    obtain ⟨whole, hwhole, hnames⟩ := hreport root hroot hnumbers
    refine ⟨root, whole, heq, hroot, hnumbers, hwhole, hbelow whole hnames, ?_⟩
    rw [validateTree_below_of_length_le ⟨[], {}⟩ hroot hnul (by decide) (by simp)
      (hlong [utf8 "sub"] (by decide) (by simp) (by decide))]
  · obtain ⟨root, heq⟩ : ∃ root, root = utf8 "t" ++ [0] := ⟨_, rfl⟩
    have hnul : 0 ∈ root := by simp [heq]
    have hroot : fs.find? root = some (.directory entries) := by
      rw [heq, hfs]
      rfl
    have hnumbers := Worker.NoOverflow.of_nul hwell hroot hnul
    obtain ⟨whole, hwhole, hnames⟩ := hreport root hroot hnumbers
    obtain ⟨part, hpart, hnames'⟩ :=
      exists_validateTree_below_of_nul ⟨[], {}⟩ hwell hroot hlisted hnul
        (show ∀ name ∈ [utf8 "sub"], Path.IsName name by decide) (by simp) 1 0
    exact ⟨root, whole, part, heq, hroot, hnumbers, hwhole, hbelow whole hnames, hpart,
      hnames'.trans hfiles⟩
  · have hsub : fs.IsSubdirectory (utf8 "u") refused [utf8 "sub"] inner :=
      ⟨by simp, by rw [hrefused]; rfl, by rw [hfs, hrefused]; rfl⟩
    have hu : fs.find? (utf8 "u") = some (.directory refused) := by
      rw [hfs]
      rfl
    have hnumbers : Worker.NoOverflow fs (utf8 "u") (jsonFiles refused) := by
      rw [hfs, hentries, hrefused, hinner]
      decide
    have hnotListed : ¬ (Node.directory refused).Listed := by
      have hv : (Node.directory refused).at? [utf8 "v"] =
          some (.directory [] (utf8 "Permission denied")) := by
        rw [hrefused]
        rfl
      exact Node.not_listed_of_at? hv
    have hinnerListed : (Node.directory inner).Listed :=
      hwellInner.refusal?_eq_none_iff.1 (by rw [hinner]; rfl)
    obtain ⟨⟨message, herror⟩, part, hpart, hnames⟩ :=
      exists_validateTree_beside_refusal ⟨[], {}⟩ hwell hu hnotListed hsub hinnerListed hnumbers 1 0
    refine ⟨message, part, hsub, hnumbers, herror, hpart, hnames.trans ?_⟩
    rw [hinner]
    rfl

end Validator

end FieldRules

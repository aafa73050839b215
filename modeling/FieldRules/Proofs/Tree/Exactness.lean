import FieldRules.Proofs.FileSystem.Below
import FieldRules.Proofs.FileSystem.Listing
import FieldRules.Proofs.Tree.Files
import FieldRules.Proofs.Tree.Independence

/-!
# Exact reports on trees

* `Worker.countP_steps`: what the steps on all files count.
* `Worker.validateTree_eq_report`: a report has the results of the JSON files in their order, and
  counts them.
* `TreeReport.Exact`: the files of a report, their order, their results and the counters.
* `Validator.validateTree_exact`: the report on every tree that is listed is exact, and the result
  of a file depends on that file alone; any other tree is an error.
-/

namespace FieldRules

namespace Worker

variable {validator : Validator} {fs : FileSystem} {root : Bytes} {paths : List (List Bytes)}
  {places : List Nat}

/-! ### Counters -/

/-- The results of files, in their order. -/
def results [DoublePrinter] (validator : Validator) (fs : FileSystem) (root : Bytes)
    (paths : List (List Bytes)) : List FileResult :=
  paths.filterMap fun names => FileResult.of? names (evaluation validator fs root names).value

/-- Holds if the steps of some kind count the results that have some property. -/
structure Counts (p : Step → Bool) (q : FileResult → Bool) : Prop where
  evaluate : ∀ place, p (.evaluate place) = false
  log : ∀ entry, p (.log entry) = false
  store : ∀ place result, p (.store place result) = false
  count : ∀ result, (countSteps result).countP p = (q result).toNat

theorem counts_checked : Counts Step.countsChecked FileResult.isChecked where
  evaluate _ := rfl
  log _ := rfl
  store _ _ := rfl
  count result := by
    unfold countSteps
    cases result.isValid <;> cases result.isChecked <;> rfl

theorem counts_valid : Counts Step.countsValid FileResult.isValid where
  evaluate _ := rfl
  log _ := rfl
  store _ _ := rfl
  count result := by
    unfold countSteps
    cases result.isValid <;> cases result.isChecked <;> rfl

variable {p : Step → Bool} {q : FileResult → Bool}

theorem countP_resultSteps [DoublePrinter] (h : Counts p q) (place : Nat) (names : List Bytes) :
    (resultSteps validator fs root place names).countP p =
      (FileResult.of? names (evaluation validator fs root names).value).elim 0 fun result =>
        (q result).toNat := by
  have hentries (entries : List Log.Entry) : (entries.map Step.log).countP p = 0 := by
    simp [List.countP_map, Function.comp_def, h.log]
  rw [resultSteps, List.countP_cons, List.countP_append, h.evaluate, hentries]
  cases FileResult.of? names (evaluation validator fs root names).value with
  | none => simp
  | some result => simp [h.store, h.log, h.count]

/-- Where the steps on each file count its result, those on some files count theirs. -/
theorem countP_flatMap_eq {α : Type} {steps : α → List Step} {result? : α → Option FileResult}
    (h : ∀ file, (steps file).countP p = (result? file).elim 0 fun result => (q result).toNat)
    (files : List α) :
    (files.flatMap steps).countP p = (files.filterMap result?).countP q := by
  induction files with
  | nil => rfl
  | cons file files ih =>
    rw [List.flatMap_cons, List.countP_append, h, ih]
    cases hresult : result? file with
    | none => simp [hresult]
    | some result => cases hq : q result <;> simp [hresult, hq, Nat.add_comm]

/-- The steps on all files, in any order, count all results. -/
theorem countP_steps [DoublePrinter] (h : Counts p q)
    (hperm : places.Perm (List.range paths.length)) :
    (places.flatMap (fileSteps validator fs root paths)).countP p =
      (results validator fs root paths).countP q := by
  have hplace (place : Nat) : (fileSteps validator fs root paths place).countP p =
      (paths[place]?.bind fun names =>
        FileResult.of? names (evaluation validator fs root names).value).elim 0
        fun result => (q result).toNat := by
    rw [fileSteps]
    cases paths[place]? with
    | none => rfl
    | some names => exact countP_resultSteps h place names
  have hfiles : (List.range paths.length).map (fun place => paths[place]?) = paths.map some := by
    refine List.ext_getElem (by simp) fun place _ hpaths => ?_
    rw [List.length_map] at hpaths
    simp [hpaths]
  have hresults : (List.range paths.length).filterMap (fun place =>
      paths[place]?.bind fun names =>
        FileResult.of? names (evaluation validator fs root names).value) =
        results validator fs root paths := by
    calc
      _ = ((List.range paths.length).map fun place => paths[place]?).filterMap
          (·.bind fun names => FileResult.of? names (evaluation validator fs root names).value) :=
            List.filterMap_map.symm
      _ = results validator fs root paths := by rw [hfiles, List.filterMap_map]; rfl
  rw [(hperm.flatMap_right _).countP_eq, countP_flatMap_eq hplace, hresults]

/-! ### Reports -/

/-- A report has the results of the JSON files in their order, and counts them. -/
theorem validateTree_eq_report [DoublePrinter] (hpaths : fs.listFiles root = .ok paths)
    (hresults : AllResults validator fs root paths) (threads cores : Nat) :
    (validator.validateTree fs root threads cores).value = .ok
      { files := results validator fs root paths
        checked := (results validator fs root paths).countP FileResult.isChecked
        valid := (results validator fs root paths).countP FileResult.isValid } := by
  obtain ⟨places, hplaces, hvalue, -⟩ := exists_validateTree_eq hpaths hresults threads cores
  have hfollows := State.follows_run paths.length
    (places.flatMap (fileSteps validator fs root paths))
  rw [hvalue, Progress.report, slots_run hresults hplaces, hfollows.checked, hfollows.valid,
    countP_steps counts_checked hplaces, countP_steps counts_valid hplaces, List.filterMap_map]
  rfl

theorem map_names_results [DoublePrinter] (hresults : AllResults validator fs root paths) :
    (results validator fs root paths).map FileResult.names = paths := by
  have hnames := map_names_filterMap_slots hresults rfl
  rwa [List.filterMap_map] at hnames

theorem mem_results_iff [DoublePrinter] {result : FileResult} :
    result ∈ results validator fs root paths ↔
      result.names ∈ paths ∧
        FileResult.of? result.names (evaluation validator fs root result.names).value =
        some result := by
  rw [results, List.mem_filterMap]
  constructor
  · rintro ⟨names, hnames, hresult⟩
    cases FileResult.names_of? hresult
    exact ⟨hnames, hresult⟩
  · rintro ⟨hnames, hresult⟩
    exact ⟨result.names, hnames, hresult⟩

end Worker

/-! ### Results -/

theorem DocumentError.describe_ne_nil (error : DocumentError) : error.describe ≠ [] := by
  unfold DocumentError.describe DocumentErrorKind.message
  cases error.fault.kind <;> simp [utf8]

theorem EvaluationError.describe_ne_nil (error : EvaluationError) : error.describe ≠ [] := by
  unfold EvaluationError.describe EvaluationErrorKind.message
  cases error.fault.kind <;> simp [utf8]

theorem Failure.describe_ne_nil (failure : Failure) : failure.describe ≠ [] := by
  cases failure with
  | evaluation error => exact error.describe_ne_nil
  | read failure =>
    cases failure with
    | document error => exact error.describe_ne_nil
    | overflow token => simp [Failure.describe, ReadFailure.describe,
        ReadFailure.overflowMessage, utf8]

/-- Holds of the result of a file if it tells what evaluating the file has come to: an outcome, or a
message that is not empty. -/
def FileResult.Tells (result : FileResult) (evaluation : Except Failure Report) : Prop :=
  (∃ report, evaluation = .ok report ∧ result.outcome = .ok report.outcome) ∨
  ∃ failure, evaluation = .error failure ∧ result.outcome = .error failure.describe ∧
    failure.describe ≠ []

theorem FileResult.tells_of_of?_eq_some {names : List Bytes} {evaluation : Except Failure Report}
    {result : FileResult} (h : of? names evaluation = some result) : result.Tells evaluation := by
  unfold of? at h
  split at h
  · cases h
  · next failure _ =>
    cases h
    exact Or.inr ⟨failure, rfl, rfl, failure.describe_ne_nil⟩
  · next report =>
    cases h
    exact Or.inl ⟨report, rfl, rfl⟩

/-! ### Exactness -/

namespace TreeReport

/-- The number of results with a given outcome, or without one. -/
def countOf (outcome : Option Outcome) (files : List FileResult) : Nat :=
  files.countP fun result => result.outcome.toOption == outcome

/-- The files that count as checked are those without an outcome, those that pass and those that
fail. -/
theorem countP_isChecked (files : List FileResult) :
    files.countP FileResult.isChecked = countOf none files + countOf (some .passed) files +
      countOf (some .failed) files := by
  induction files with
  | nil => rfl
  | cons result files ih =>
    simp only [countOf] at ih
    obtain ⟨names, message | _ | _ | _⟩ := result <;>
      simp +arith [countOf, List.countP_cons, ih, FileResult.isChecked, Except.toOption]

theorem countP_isValid (files : List FileResult) :
    files.countP FileResult.isValid = countOf (some .passed) files := by
  refine List.countP_congr fun result _ => ?_
  obtain ⟨names, message | _ | _ | _⟩ := result <;> simp [FileResult.isValid, Except.toOption]

/-- All files that do not count as checked are skipped. -/
theorem length_eq_countP_isChecked_add (files : List FileResult) :
    files.length = files.countP FileResult.isChecked + countOf (some .skipped) files := by
  rw [List.length_eq_countP_add_countP FileResult.isChecked]
  refine congrArg _ (List.countP_congr fun result _ => ?_)
  obtain ⟨names, message | _ | _ | _⟩ := result <;> simp [FileResult.isChecked, Except.toOption]

/-- Holds of a report that says of the JSON files below a directory exactly what there is to say. -/
structure Exact [DoublePrinter] (validator : Validator) (fs : FileSystem) (root : Bytes)
    (entries : List (Bytes × Node)) (report : TreeReport) : Prop where
  /-- The files are the places of files whose last name ends in `.json` with something in front of
  it. -/
  mem_iff : ∀ names, names ∈ report.files.map FileResult.names ↔
    (∃ content, (Node.directory entries).at? names = some (.file content)) ∧
      ∃ stem, stem ≠ [] ∧ names.getLast? = some (stem ++ utf8 ".json")
  /-- They are ordered name by name, and none comes twice. -/
  ordered : (report.files.map FileResult.names).Pairwise (· < ·)
  tells : ∀ result ∈ report.files,
    result.Tells (validator.evaluateFile fs (Path.append root result.path)).value
  checked : report.checked = countOf none report.files + countOf (some .passed) report.files +
    countOf (some .failed) report.files
  valid : report.valid = countOf (some .passed) report.files
  valid_le : report.valid ≤ report.checked
  checked_le : report.checked ≤ report.files.length
  skipped : report.files.length - report.checked = countOf (some .skipped) report.files

/-- The files of an exact report are the JSON files in their order. -/
theorem Exact.map_names [DoublePrinter] {validator : Validator} {fs : FileSystem} {root : Bytes}
    {entries : List (Bytes × Node)} {report : TreeReport}
    (h : report.Exact validator fs root entries) (hwell : (Node.directory entries).WellFormed) :
    report.files.map FileResult.names = jsonFiles entries := by
  refine List.Pairwise.eq_of_mem_iff h.ordered (pairwise_jsonFiles hwell) fun names => ?_
  exact (h.mem_iff names).trans (mem_jsonFiles_iff hwell).symm

end TreeReport

namespace Worker

variable {validator : Validator} {fs other : FileSystem} {root : Bytes}
  {entries others : List (Bytes × Node)}
  {names : List Bytes}

/-- A JSON file of a well-formed tree is evaluated at its path behind that of the root. -/
theorem evaluation_eq [DoublePrinter] (validator : Validator) (fs : FileSystem) (root : Bytes)
    (h : (Node.directory entries).WellFormed) (hnames : names ∈ jsonFiles entries) :
    evaluation validator fs root names =
      validator.evaluateFile fs (Path.append root (Bytes.joinWith [Ascii.slash] names)) := by
  obtain ⟨hproper, hne⟩ := isName_of_mem_jsonFiles h hnames
  rw [evaluation, Path.below_eq_append hproper hne]

end Worker

namespace Validator

variable {fs : FileSystem} {root : Bytes} {entries : List (Bytes × Node)}

/-- The report on a directory of a well-formed file system is exact. -/
theorem exists_validateTree_exact [DoublePrinter] (validator : Validator) (hfs : fs.WellFormed)
    (hroot : fs.find? root = some (.directory entries)) (hlisted : (Node.directory entries).Listed)
    (hnumbers : Worker.NoOverflow fs root (jsonFiles entries)) (threads cores : Nat) :
    ∃ report : TreeReport, (validator.validateTree fs root threads cores).value = .ok report ∧
      report.files = Worker.results validator fs root (jsonFiles entries) ∧
      report.Exact validator fs root entries := by
  have hwell : (Node.directory entries).WellFormed := hfs.find?_eq_some hroot
  have hresults : Worker.AllResults validator fs root (jsonFiles entries) :=
    Worker.allResults_of_noOverflow hnumbers
  have hpaths := FileSystem.listFiles_of_listed hfs hroot hlisted
  refine ⟨_, Worker.validateTree_eq_report hpaths hresults threads cores, rfl, ?_⟩
  have hchecked :=
    TreeReport.countP_isChecked (Worker.results validator fs root (jsonFiles entries))
  have hvalid := TreeReport.countP_isValid (Worker.results validator fs root (jsonFiles entries))
  have hlength :=
    TreeReport.length_eq_countP_isChecked_add (Worker.results validator fs root (jsonFiles entries))
  refine ⟨fun names => ?_, ?_, fun result hresult => ?_, hchecked, hvalid, ?_, ?_, ?_⟩
  · rw [Worker.map_names_results hresults]
    exact mem_jsonFiles_iff hwell
  · rw [Worker.map_names_results hresults]
    exact pairwise_jsonFiles hwell
  · obtain ⟨hnames, hof⟩ := Worker.mem_results_iff.1 hresult
    rw [Worker.evaluation_eq validator fs root hwell hnames] at hof
    exact FileResult.tells_of_of?_eq_some hof
  · simp only [hchecked, hvalid]
    omega
  · simp only [hlength]
    omega
  · simp only [hlength]
    omega

end Validator

end FieldRules

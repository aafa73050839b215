import FieldRules.Proofs.Document
import FieldRules.Proofs.Tree.Schedule
import FieldRules.Tree.Basic

/-!
# Trees with a number out of range

* `runFiles_eq_error_iff`: evaluating files in order ends at the first file that holds a number
  beyond the range of binary64.
* `exists_validateTree_eq_overflow_iff`: so does validating a tree, if there is such a file anywhere
  in it, whatever the number of threads.
-/

namespace FieldRules.Validator

variable {validator : Validator} {fs : FileSystem} {root : Bytes}

theorem checkFile_eq_error_iff [DoublePrinter] {names : List Bytes} {token : Bytes} :
    (validator.checkFile fs root names).value = .error token ↔
      (validator.evaluateFile fs (Path.below root names)).value =
        .error (.read (.overflow token)) := by
  unfold checkFile
  rw [Logged.value_bind]
  cases (validator.evaluateFile fs (Path.below root names)).value with
  | ok report => simp [checkFile.finish]
  | error failure =>
    cases failure with
    | evaluation error => simp [checkFile.finish]
    | read failure => cases failure <;> simp [checkFile.finish]

/-- Evaluating files in order ends with a token if a file does and every file in front of that one
has a result. -/
theorem runFiles_eq_error_iff {check : List Bytes → Logged (Except Bytes FileResult)}
    {paths : List (List Bytes)} {progress : Progress} {places : List Nat} {token : Bytes} :
    (runFiles check paths progress places).value = .error token ↔
      ComesTo (fun place => ∀ names, paths[place]? = some names → ∃ result,
        (check names).value = .ok result)
        (fun place => ∃ names, paths[place]? = some names ∧
          (check names).value = .error token) places := by
  induction places generalizing progress with
  | nil => simp [runFiles, not_comesTo_nil]
  | cons place places ih =>
    rw [comesTo_cons, runFiles]
    cases hnames : paths[place]? with
    | none => simp [ih]
    | some names =>
      rw [Logged.value_bind]
      cases hcheck : (check names).value with
      | error found => simp [hcheck]
      | ok result => simp [hcheck, ih]

/-- Some file ends the run exactly if some file of the tree does, for every file has its turn. -/
theorem exists_runFiles_eq_error_iff {check : List Bytes → Logged (Except Bytes FileResult)}
    {paths : List (List Bytes)} {progress : Progress} {places : List Nat}
    (hplaces : places.Perm (List.range paths.length)) :
    (∃ token, (runFiles check paths progress places).value = .error token) ↔
      ∃ names ∈ paths, ∃ token, (check names).value = .error token := by
  simp only [runFiles_eq_error_iff]
  rw [exists_comesTo_iff]
  · constructor
    · rintro ⟨place, -, token, names, hnames, hcheck⟩
      exact ⟨names, List.mem_of_getElem? hnames, token, hcheck⟩
    · rintro ⟨names, hmem, token, hcheck⟩
      obtain ⟨place, hlt, rfl⟩ := List.mem_iff_getElem.1 hmem
      have hplace : place ∈ places := hplaces.mem_iff.2 (List.mem_range.2 hlt)
      exact ⟨place, hplace, token, paths[place], List.getElem?_eq_getElem hlt, hcheck⟩
  -- a place without a file is passed
  · intro place
    cases hnames : paths[place]? with
    | none => exact Or.inl (by simp)
    | some names =>
      cases hcheck : (check names).value with
      | ok result =>
        refine Or.inl fun other hother => ⟨result, ?_⟩
        cases hother
        exact hcheck
      | error token => exact Or.inr ⟨token, names, rfl, hcheck⟩

/-- Validating a tree ends with a number out of range exactly if its files are listed and evaluating
some JSON file among them does. -/
theorem exists_validateTree_eq_overflow_iff [DoublePrinter] {threads cores : Nat} :
    (∃ token, (validator.validateTree fs root threads cores).value = .error (.overflow token)) ↔
      ∃ paths, fs.listFiles root = .ok paths ∧ ∃ names ∈ paths, ∃ token,
        (validator.evaluateFile fs (Path.below root names)).value =
          .error (.read (.overflow token)) := by
  simp only [← checkFile_eq_error_iff]
  unfold validateTree
  cases fs.listFiles root with
  | error error => simp
  | ok paths =>
    -- the order is that of the threads one after the other, which leaves no file out
    have hpos := Schedule.threadCount_pos threads cores paths.length
    have hplaces : (Schedule.sequential _ _ _).Perm _ :=
      Schedule.work_perm hpos (Nat.le_refl _) paths.length
    simp only [Except.ok.injEq, exists_eq_left', Logged.value_bind]
    refine .trans ?_ (@exists_runFiles_eq_error_iff _ _ (.start paths.length) _ hplaces)
    refine exists_congr fun token => ?_
    cases (runFiles _ _ _ (Schedule.sequential _ _ _)).value with
    | error found => simp
    | ok progress => simp

end FieldRules.Validator

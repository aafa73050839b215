import FieldRules.Proofs.Tree.Steps

/-!
# Steps on files

* `Worker.fileSteps`: the steps on the file at a place.
* `Worker.run_resultSteps`: together they record the result of the file and log what evaluating and
  recording it logs.
* `Worker.runFiles_eq`: evaluating files in order takes the steps on them in order.
* `Worker.filterMap_evaluated` and `Worker.filterMap_stored`: which places the steps on some files
  evaluate, and which slots they fill.
-/

namespace FieldRules

/-- What becomes of a file that was evaluated: nothing if it holds a number beyond the range of
binary64. -/
def FileResult.of? (names : List Bytes) : Except Failure Report → Option FileResult
  | .error (.read (.overflow _)) => none
  | .error failure => some ⟨names, .error failure.describe⟩
  | .ok report => some ⟨names, .ok report.outcome⟩

theorem FileResult.names_of? {names : List Bytes} {value : Except Failure Report}
    {result : FileResult} (h : of? names value = some result) : result.names = names := by
  unfold of? at h
  split at h <;> cases h <;> rfl

theorem FileResult.exists_of? {names : List Bytes} {value : Except Failure Report}
    (h : ∀ token, value ≠ .error (.read (.overflow token))) :
    ∃ result, of? names value = some result := by
  unfold of?
  split
  · next token => exact absurd rfl (h token)
  · exact ⟨_, rfl⟩
  · exact ⟨_, rfl⟩

namespace Worker

/-! ### Steps -/

variable (validator : Validator) (fs : FileSystem) (root : Bytes) (paths : List (List Bytes))

/-- The evaluation of the file with the given names. -/
def evaluation [DoublePrinter] (names : List Bytes) : Logged (Except Failure Report) :=
  validator.evaluateFile fs (Path.below root names)

/-- The steps that count a result. -/
def countSteps (result : FileResult) : List Step :=
  (if result.isValid then [.countValid] else []) ++ if result.isChecked then [.countChecked] else []

/-- The steps on the file with the given names: it is evaluated, its result put into its slot and
logged, and counted. A number beyond the range of binary64 leaves no result. -/
def resultSteps [DoublePrinter] (place : Nat) (names : List Bytes) : List Step :=
  .evaluate place :: ((evaluation validator fs root names).entries.map .log ++
    match FileResult.of? names (evaluation validator fs root names).value with
    | none => []
    | some result => .store place result :: .log result.entry :: countSteps result)

/-- The steps on the file at a place. -/
def fileSteps [DoublePrinter] (place : Nat) : List Step :=
  paths[place]?.elim [] (resultSteps validator fs root place)

variable {validator fs root paths} {places : List Nat}

/-- Counting alone touches nothing else. -/
theorem filterMap_countSteps {β : Type} {f : Step → Option β} (hvalid : f .countValid = none)
    (hchecked : f .countChecked = none) (result : FileResult) :
    (countSteps result).filterMap f = [] := by
  unfold countSteps
  cases result.isValid <;> cases result.isChecked <;> simp [hvalid, hchecked]

theorem run_map_log (state : State) (logged : List Log.Entry) :
    state.run (logged.map Step.log) = { state with entries := state.entries ++ logged } := by
  induction logged generalizing state with
  | nil => simp [State.run]
  | cons entry logged ih =>
    rw [List.map_cons, State.run_cons, ih]
    simp [Step.apply]

/-- The steps on a file together record its result and log what evaluating and recording it logs. -/
theorem run_resultSteps [DoublePrinter] (state : State) {place : Nat} {names : List Bytes}
    {result : FileResult}
    (hresult : FileResult.of? names (evaluation validator fs root names).value = some result) :
    state.run (resultSteps validator fs root place names) =
      { progress := state.progress.record place result, evaluated := state.evaluated ++ [place],
        entries := state.entries ++
          ((evaluation validator fs root names).entries ++ [result.entry]) } := by
  rw [resultSteps, hresult, State.run_cons, State.run_append, run_map_log]
  cases hvalid : result.isValid <;> cases hchecked : result.isChecked <;>
    simp [State.run, Step.apply, Progress.record, countSteps, hvalid, hchecked]

/-! ### Files in order -/

/-- Holds if all files have results: none holds a number beyond the range of binary64. -/
def AllResults [DoublePrinter] (validator : Validator) (fs : FileSystem) (root : Bytes)
    (paths : List (List Bytes)) : Prop :=
  ∀ names ∈ paths, ∃ result,
    FileResult.of? names (evaluation validator fs root names).value = some result

theorem checkFile_eq [DoublePrinter] {names : List Bytes} {result : FileResult}
    (hresult : FileResult.of? names (evaluation validator fs root names).value = some result) :
    validator.checkFile fs root names =
      ⟨.ok result, (evaluation validator fs root names).entries ++ [result.entry]⟩ := by
  unfold Validator.checkFile
  rw [← evaluation]
  generalize evaluation validator fs root names = logged at hresult ⊢
  obtain ⟨value, entries⟩ := logged
  cases value with
  | ok report => cases hresult; rfl
  | error failure =>
    cases failure with
    | evaluation error => cases hresult; rfl
    | read failure =>
      cases failure with
      | document error => cases hresult; rfl
      | overflow token => cases hresult

/-- Evaluating files in order takes the steps on them in order. -/
theorem runFiles_eq [DoublePrinter] (hresults : AllResults validator fs root paths)
    (places : List Nat) (state : State) :
    (Validator.runFiles (validator.checkFile fs root) paths state.progress places).value =
        .ok (state.run (places.flatMap (fileSteps validator fs root paths))).progress ∧
      (state.run (places.flatMap (fileSteps validator fs root paths))).entries =
        state.entries ++
          (Validator.runFiles (validator.checkFile fs root) paths state.progress
          places).entries := by
  induction places generalizing state with
  | nil => simp [Validator.runFiles, State.run]
  | cons place places ih =>
    rw [List.flatMap_cons, State.run_append, Validator.runFiles]
    cases hnames : paths[place]? with
    | none =>
      have hsteps : fileSteps validator fs root paths place = [] := by rw [fileSteps, hnames]; rfl
      rw [hsteps]
      exact ih state
    | some names =>
      obtain ⟨result, hresult⟩ := hresults names (List.mem_of_getElem? hnames)
      have hsteps : fileSteps validator fs root paths place =
          resultSteps validator fs root place names := by
        rw [fileSteps, hnames]; rfl
      rw [hsteps, run_resultSteps state hresult]
      obtain ⟨hvalue, hentries⟩ :=
        ih ⟨state.progress.record place result, state.evaluated ++ [place],
        state.entries ++ ((evaluation validator fs root names).entries ++ [result.entry])⟩
      simp only [checkFile_eq hresult]
      refine ⟨hvalue, hentries.trans ?_⟩
      simp

/-! ### What the steps on files do -/

theorem filterMap_evaluated_resultSteps [DoublePrinter] (place : Nat) (names : List Bytes) :
    (resultSteps validator fs root place names).filterMap Step.evaluated? = [place] := by
  have hfirst : Step.evaluated? (.evaluate place) = some place := rfl
  rw [resultSteps, List.filterMap_cons_some hfirst, List.filterMap_append,
    State.filterMap_map_log fun _ => rfl]
  cases FileResult.of? names (evaluation validator fs root names).value with
  | none => rfl
  | some result =>
    show place :: (countSteps result).filterMap Step.evaluated? = [place]
    rw [filterMap_countSteps rfl rfl]

/-- The steps on a file fill its slot once, and no other slot. -/
theorem filterMap_stored_resultSteps [DoublePrinter] (place slot : Nat) (names : List Bytes) :
    (resultSteps validator fs root place names).filterMap (Step.stored? slot) =
      if place = slot then (FileResult.of? names (evaluation validator fs root names).value).toList
      else [] := by
  have hfirst : Step.stored? slot (.evaluate place) = none := rfl
  rw [resultSteps, List.filterMap_cons_none hfirst, List.filterMap_append,
    State.filterMap_map_log fun _ => rfl]
  cases FileResult.of? names (evaluation validator fs root names).value with
  | none => simp
  | some result =>
    show (Step.store place result :: .log result.entry :: countSteps result).filterMap
      (Step.stored? slot) = _
    have hlog : Step.stored? slot (.log result.entry) = none := rfl
    have hcount : (countSteps result).filterMap (Step.stored? slot) = [] :=
      filterMap_countSteps rfl rfl _
    by_cases hplace : place = slot
    · have hstore : Step.stored? slot (.store place result) = some result := if_pos hplace
      rw [List.filterMap_cons_some hstore, List.filterMap_cons_none hlog, hcount, if_pos hplace]
      rfl
    · have hstore : Step.stored? slot (.store place result) = none := if_neg hplace
      rw [List.filterMap_cons_none hstore, List.filterMap_cons_none hlog, hcount, if_neg hplace]

theorem fileSteps_eq [DoublePrinter] {place : Nat} (hplace : place < paths.length) :
    fileSteps validator fs root paths place = resultSteps validator fs root place paths[place] := by
  rw [fileSteps, List.getElem?_eq_getElem hplace]
  rfl

theorem filterMap_evaluated [DoublePrinter] (hplaces : ∀ place ∈ places, place < paths.length) :
    (places.flatMap (fileSteps validator fs root paths)).filterMap Step.evaluated? = places := by
  induction places with
  | nil => rfl
  | cons place places ih =>
    rw [List.flatMap_cons, List.filterMap_append,
      fileSteps_eq (hplaces place (List.mem_cons_self ..)),
      filterMap_evaluated_resultSteps, ih fun other hother =>
        hplaces other (List.mem_cons_of_mem _ hother)]
    rfl

/-- The slot of a file is filled with its result as often as the file is among those evaluated. -/
theorem filterMap_stored [DoublePrinter] (hplaces : ∀ place ∈ places, place < paths.length)
    {slot : Nat} (hslot : slot < paths.length) {result : FileResult}
    (hresult : FileResult.of? paths[slot] (evaluation validator fs root paths[slot]).value =
      some result) :
    (places.flatMap (fileSteps validator fs root paths)).filterMap (Step.stored? slot) =
      List.replicate (places.count slot) result := by
  induction places with
  | nil => rfl
  | cons place places ih =>
    rw [List.flatMap_cons, List.filterMap_append,
      fileSteps_eq (hplaces place (List.mem_cons_self ..)),
      filterMap_stored_resultSteps, ih fun other hother =>
        hplaces other (List.mem_cons_of_mem _ hother), List.count_cons]
    by_cases hplace : place = slot
    · subst hplace
      simp [hresult, List.replicate_succ]
    · simp [hplace]

end Worker

end FieldRules

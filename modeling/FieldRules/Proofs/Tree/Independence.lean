import FieldRules.Proofs.Document
import FieldRules.Proofs.Tree.FileSteps
import FieldRules.Proofs.Tree.Schedule

/-!
# Independence of the schedule

* `Worker.threadSteps`: the steps of each thread, of which some may not have started.
* `Worker.schedule_independent`: whatever the number of threads, the number of those that start and
  the order in which they take their steps, a run ends as with one thread.
-/

namespace FieldRules.Worker

variable {validator : Validator} {fs : FileSystem} {root : Bytes} {paths : List (List Bytes)}
  {places : List Nat}

/-! ### Threads -/

/-- The steps of the threads of a run, the calling thread first. If some threads do not start, the
calling thread logs a warning before it does their work. -/
def threadSteps [DoublePrinter] (validator : Validator) (fs : FileSystem) (root : Bytes)
    (paths : List (List Bytes)) (warning : Log.Entry) (threads started : Nat) : List (List Step) :=
  ((if started < threads then [warning] else []).map .log ++
      (Schedule.callerWork threads started paths.length).flatMap
        (fileSteps validator fs root paths)) ::
    (List.range' 1 (started - 1)).map fun first =>
      (Schedule.stripe threads paths.length first).flatMap (fileSteps validator fs root paths)

/-- The steps of all threads are those on the places of their work. -/
theorem flatten_threadSteps [DoublePrinter] (warning : Log.Entry) (threads started : Nat) :
    (threadSteps validator fs root paths warning threads started).flatten =
      (if started < threads then [warning] else []).map .log ++
        (Schedule.work threads started paths.length).flatten.flatMap
          (fileSteps validator fs root paths) := by
  rw [threadSteps, Schedule.work, List.flatten_cons, List.flatten_cons, List.flatMap_append,
    List.append_assoc]
  simp only [List.flatMap_def, List.map_flatten, List.flatten_flatten, List.map_map,
    Function.comp_def]

/-- If one step of several lists has a property, it is in one list only. -/
theorem countP_any_of_countP_flatten {α : Type} {p : α → Bool} {lists : List (List α)}
    (h : lists.flatten.countP p = 1) : lists.countP (fun list => list.any p) = 1 := by
  induction lists with
  | nil => cases h
  | cons list lists ih =>
    rw [List.flatten_cons, List.countP_append] at h
    rw [List.countP_cons]
    by_cases hlist : list.countP p = 0
    · have hany : list.any p = false := by simpa [List.countP_eq_zero] using hlist
      rw [ih (by omega), hany]
      rfl
    -- the step is in this list, and no other list has one
    · have hany : list.any p = true := by simpa [List.countP_eq_zero] using hlist
      have hrest : lists.flatten.countP p = 0 := by omega
      have hnone : lists.countP (fun list => list.any p) = 0 := by
        refine List.countP_eq_zero.2 fun other hother hother_any => ?_
        obtain ⟨a, ha, hpa⟩ := List.any_eq_true.1 hother_any
        exact List.countP_eq_zero.1 hrest a (List.mem_flatten.2 ⟨other, hother, ha⟩) hpa
      rw [hnone, hany]
      rfl

/-! ### Runs -/

theorem lt_length_of_perm (hperm : places.Perm (List.range paths.length)) :
    ∀ place ∈ places, place < paths.length :=
  fun _ hplace => List.mem_range.1 (hperm.mem_iff.1 hplace)

/-- Where every file is evaluated once, every slot gets the result of its file. -/
theorem slots_run [DoublePrinter] (hresults : AllResults validator fs root paths)
    (hperm : places.Perm (List.range paths.length)) :
    ((State.start paths.length).run
      (places.flatMap (fileSteps validator fs root paths))).progress.slots =
      paths.map fun names => FileResult.of? names (evaluation validator fs root names).value := by
  have hplaces := lt_length_of_perm hperm
  have hfollows :=
    State.follows_run paths.length (places.flatMap (fileSteps validator fs root paths))
  refine List.ext_getElem? fun slot => ?_
  rcases Nat.lt_or_ge slot paths.length with hlt | hge
  · obtain ⟨result, hresult⟩ := hresults paths[slot] (List.getElem_mem hlt)
    have hcount : places.count slot = 1 := by
      rw [hperm.count_eq]
      exact List.count_eq_one_of_mem List.nodup_range (List.mem_range.2 hlt)
    rw [hfollows.slots slot hlt, filterMap_stored hplaces hlt hresult, hcount]
    simp [hlt, hresult]
  · rw [List.getElem?_eq_none (by rw [hfollows.length]; exact hge),
      List.getElem?_eq_none (by simpa using hge)]

/-- Slots with the results of all files are those files in their order. -/
theorem map_names_filterMap_slots [DoublePrinter] (hresults : AllResults validator fs root paths)
    {slots : List (Option FileResult)}
    (hslots : slots = paths.map fun names =>
      FileResult.of? names (evaluation validator fs root names).value) :
    (slots.filterMap id).map FileResult.names = paths := by
  have hnames : ∀ names ∈ paths,
      (FileResult.of? names (evaluation validator fs root names).value).map FileResult.names =
        some names := by
    intro names hmem
    obtain ⟨result, hresult⟩ := hresults names hmem
    rw [hresult, Option.map_some, FileResult.names_of? hresult]
  rw [hslots, List.filterMap_map, List.map_filterMap]
  exact (List.filterMap_congr hnames).trans List.filterMap_some

/-- The places of all files fill every slot once. -/
theorem length_filterMap_stored [DoublePrinter] (hresults : AllResults validator fs root paths)
    (hperm : places.Perm (List.range paths.length)) {slot : Nat} (hslot : slot < paths.length) :
    ((places.flatMap (fileSteps validator fs root paths)).filterMap (Step.stored? slot)).length =
      1 := by
  obtain ⟨result, hresult⟩ := hresults paths[slot] (List.getElem_mem hslot)
  rw [filterMap_stored (lt_length_of_perm hperm) hslot hresult,
    List.length_replicate, hperm.count_eq]
  exact List.count_eq_one_of_mem List.nodup_range (List.mem_range.2 hslot)

/-- The entry that sums a run up. -/
def summaryEntry (root : Bytes) (report : TreeReport) : Log.Entry :=
  ⟨.info, root ++ utf8 ": " ++ report.summary⟩

/-- Validating a tree takes the steps on its files in some order and sums up. -/
theorem exists_validateTree_eq [DoublePrinter] (hpaths : fs.listFiles root = .ok paths)
    (hresults : AllResults validator fs root paths) (threads cores : Nat) :
    ∃ places : List Nat, places.Perm (List.range paths.length) ∧
      let final :=
        (State.start paths.length).run (places.flatMap (fileSteps validator fs root paths))
      (validator.validateTree fs root threads cores).value = .ok final.progress.report ∧
      (validator.validateTree fs root threads cores).entries =
        final.entries ++ [summaryEntry root final.progress.report] := by
  obtain ⟨count, hcount⟩ : ∃ count, count = Schedule.threadCount threads cores paths.length :=
    ⟨_, rfl⟩
  have hpos : 1 ≤ count := hcount ▸ Schedule.threadCount_pos ..
  refine ⟨Schedule.sequential count count paths.length,
    Schedule.work_perm hpos (Nat.le_refl _) _, ?_⟩
  obtain ⟨hvalue, hentries⟩ := runFiles_eq hresults (Schedule.sequential count count paths.length)
    (State.start paths.length)
  unfold Validator.validateTree
  simp only [hpaths, ← hcount]
  have hstart : (State.start paths.length).progress = .start paths.length := rfl
  rw [hstart] at hvalue hentries
  generalize Validator.runFiles (validator.checkFile fs root) paths _ _ =
    logged at hvalue hentries ⊢
  obtain ⟨value, others⟩ := logged
  cases hvalue
  rw [hentries]
  exact ⟨rfl, rfl⟩

/-- Holds if none of the files holds a number beyond the range of binary64. -/
def NoOverflow (fs : FileSystem) (root : Bytes) (paths : List (List Bytes)) : Prop :=
  ∀ names ∈ paths, ∀ content token, fs.readText (Path.below root names) = .ok content →
    Json.read content ≠ .error (.outOfRange token)

theorem noOverflow_iff :
    NoOverflow fs root paths ↔ ∀ names ∈ paths, ∀ content ∈ fs.content? (Path.below root names),
      ∀ token, Json.read content ≠ .error (.outOfRange token) := by
  simp only [NoOverflow, FileSystem.readText_eq_ok_iff, Option.mem_def]
  exact forall₂_congr fun names _ => forall_congr' fun content => forall_comm

instance : Decidable (NoOverflow fs root paths) := decidable_of_iff _ noOverflow_iff.symm

theorem allResults_of_noOverflow [DoublePrinter] (h : NoOverflow fs root paths) :
    AllResults validator fs root paths := by
  intro names hnames
  refine FileResult.exists_of? fun token hoverflow => ?_
  obtain ⟨content, hcontent, hread⟩ :=
    readDocument_eq_overflow_iff.1 (evaluateRead_eq_overflow_iff.1 hoverflow)
  exact h names hnames content token hcontent hread

/-! ### Independence -/

/-- The steps of all threads, in whatever order they are taken, are those on all files and the
warning. -/
theorem perm_of_interleaving [DoublePrinter] {threads started : Nat} (hstarted : 1 ≤ started)
    (hle : started ≤ threads) {warning : Log.Entry} {order : List Step}
    (horder : Schedule.Interleaving
      (threadSteps validator fs root paths warning threads started) order)
    (hplaces : places.Perm (List.range paths.length)) :
    order.Perm ((if started < threads then [warning] else []).map .log ++
      places.flatMap (fileSteps validator fs root paths)) := by
  have hwork := (Schedule.work_perm hstarted hle paths.length).trans hplaces.symm
  refine horder.perm.trans ?_
  rw [flatten_threadSteps]
  exact (hwork.flatMap_right _).append_left _

/-- A tree whose files are not listed has no run: with any number of threads it ends at once, and
with the same error. -/
theorem validateTree_of_error [DoublePrinter] {error : DocumentError}
    (h : fs.listFiles root = .error error) (threads cores : Nat) :
    validator.validateTree fs root threads cores = ⟨.error (.document error), []⟩ := by
  rw [Validator.validateTree, h]
  rfl

/-- A run of the threads over the files of a tree does not depend on the schedule. For every number
of threads asked for, every number of them that start, and every order in which they take their
steps, each file is evaluated once, each slot is filled once and by one thread, and in the end the
report is that of a run with any other number of threads, one of them included; so is the log, up to
its order and the warning that some threads did not start. If the files cannot be listed, no thread
does anything, and it is the same error with any number of them. -/
theorem schedule_independent [DoublePrinter] {entries : List (Bytes × Node)}
    {refusal : Option Bytes} (hroot : fs.find? root = some (.directory entries refusal))
    (hnumbers : NoOverflow fs root (jsonFiles entries)) (requested cores : Nat) {started : Nat}
    (hstarted : 1 ≤ started)
    (hle : started ≤ Schedule.threadCount requested cores (jsonFiles entries).length)
    (warning : Log.Entry) {order : List Step}
    (horder : Schedule.Interleaving (threadSteps validator fs root (jsonFiles entries) warning
      (Schedule.threadCount requested cores (jsonFiles entries).length) started) order) :
    let final := (State.start (jsonFiles entries).length).run order
    final.evaluated.Perm (List.range (jsonFiles entries).length) ∧
    (∀ slot < (jsonFiles entries).length, order.countP (Step.writes slot) = 1 ∧
      (threadSteps validator fs root (jsonFiles entries) warning
        (Schedule.threadCount requested cores (jsonFiles entries).length) started).countP
        (fun steps => steps.any (Step.writes slot)) = 1) ∧
    final.progress.report.files.map FileResult.names = jsonFiles entries ∧
    ((Node.directory entries refusal).refusal? = none → ∀ threads cores' : Nat,
      (validator.validateTree fs root threads cores').value = .ok final.progress.report ∧
      (final.entries ++ [summaryEntry root final.progress.report]).Perm
        ((if started < Schedule.threadCount requested cores (jsonFiles entries).length
            then [warning] else []) ++
          (validator.validateTree fs root threads cores').entries)) ∧
    ∀ message, (Node.directory entries refusal).refusal? = some message → ∀ threads cores' : Nat,
      validator.validateTree fs root threads cores' =
        ⟨.error (.document ⟨.cannotList message, root⟩), []⟩ := by
  intro final
  have hresults : AllResults validator fs root (jsonFiles entries) :=
    allResults_of_noOverflow hnumbers
  -- every other order of the files is a witness that the run can be compared with
  have hcompare {places : List Nat}
      (hplaces : places.Perm (List.range (jsonFiles entries).length)) :=
    State.run_perm (perm_of_interleaving hstarted hle horder hplaces)
      fun slot hslot => (length_filterMap_stored hresults hplaces hslot).le
  have hrange :
      (List.range (jsonFiles entries).length).Perm (List.range (jsonFiles entries).length) :=
    .refl _
  have hwrites : ∀ slot < (jsonFiles entries).length, order.countP (Step.writes slot) = 1 := by
    intro slot hslot
    rw [(perm_of_interleaving hstarted hle horder hrange).countP_eq,
      List.countP_append, List.countP_map]
    show _ + List.countP (fun step => (Step.stored? slot step).isSome) _ = 1
    rw [← List.length_filterMap_eq_countP, length_filterMap_stored hresults hrange hslot]
    simp [Function.comp_def, Step.writes, Step.stored?]
  refine ⟨?_, ?_, ?_, fun hlisted threads cores' => ?_, fun message hrefusal => ?_⟩
  · have hevaluated :=
      (State.follows_run (jsonFiles entries).length ((List.range (jsonFiles entries).length).flatMap
      (fileSteps validator fs root (jsonFiles entries)))).evaluated
    rw [filterMap_evaluated (lt_length_of_perm hrange)] at hevaluated
    exact hevaluated ▸ (hcompare hrange).2.1
  · intro slot hslot
    refine ⟨hwrites slot hslot, countP_any_of_countP_flatten ?_⟩
    rw [← horder.perm.countP_eq, hwrites slot hslot]
  · have hslots := congrArg Progress.slots (hcompare hrange).1
    exact map_names_filterMap_slots hresults (hslots.trans (slots_run hresults hrange))
  · have hpaths := FileSystem.listFiles_of_refusal?_eq_none hroot hlisted
    obtain ⟨places, hplaces, hvalue, hentries⟩ :=
      exists_validateTree_eq hpaths hresults threads cores'
    obtain ⟨hprogress, -, hlog⟩ := hcompare hplaces
    have hreport : final.progress.report = ((State.start (jsonFiles entries).length).run
        (places.flatMap (fileSteps validator fs root (jsonFiles entries)))).progress.report :=
      congrArg Progress.report hprogress
    refine ⟨hreport ▸ hvalue, ?_⟩
    rw [hentries, ← hreport, ← List.append_assoc]
    exact hlog.append_right _
  · exact validateTree_of_error (FileSystem.listFiles_of_refusal?_eq_some hroot hrefusal)

/-- Two files and two threads, of which the second begins before the first and is then kept
waiting. -/
theorem schedule_independent_of_two_threads :
    ∃ (fs : FileSystem) (entries : List (Bytes × Node)) (warning : Log.Entry) (order : List Step),
      fs.find? (utf8 "t") = some (.directory entries) ∧
      jsonFiles entries = [[utf8 "a.json"], [utf8 "b.json"]] ∧
      Schedule.Interleaving (threadSteps ⟨[], {}⟩ fs (utf8 "t") (jsonFiles entries) warning
        (Schedule.threadCount 2 0 (jsonFiles entries).length) 2) order ∧
      order.head? = some (.evaluate 1) ∧
      ((State.start (jsonFiles entries).length).run order).evaluated.Perm [0, 1] := by
  obtain ⟨entries, hentries⟩ : ∃ entries : List (Bytes × Node),
      entries = [(utf8 "a.json", .file (utf8 "{}")), (utf8 "b.json", .file (utf8 "[1]"))] :=
    ⟨_, rfl⟩
  obtain ⟨fs, hfs⟩ : ∃ fs : FileSystem, fs = ⟨[(utf8 "t", .directory entries)], []⟩ := ⟨_, rfl⟩
  obtain ⟨warning, -⟩ : ∃ warning : Log.Entry, warning.level = .warning := ⟨⟨.warning, []⟩, rfl⟩
  have hroot : fs.find? (utf8 "t") = some (.directory entries) := by
    rw [hfs]
    rfl
  have hfiles : jsonFiles entries = [[utf8 "a.json"], [utf8 "b.json"]] := by
    rw [hentries]
    rfl
  have hnumbers : NoOverflow fs (utf8 "t") (jsonFiles entries) := by
    rw [hfiles, hfs, hentries]
    decide
  obtain ⟨caller, rest, hsteps⟩ : ∃ caller rest,
      threadSteps ⟨[], {}⟩ fs (utf8 "t") (jsonFiles entries) warning
        (Schedule.threadCount 2 0 (jsonFiles entries).length) 2 =
          [caller, .evaluate 1 :: rest] := by
    rw [hfs, hentries]
    exact ⟨_, _, rfl⟩
  have horder :
      Schedule.Interleaving (threadSteps ⟨[], {}⟩ fs (utf8 "t") (jsonFiles entries) warning
      (Schedule.threadCount 2 0 (jsonFiles entries).length) 2)
      (.evaluate 1 :: [caller, rest].flatten) := by
    rw [hsteps]
    exact @Schedule.Interleaving.step Step [caller] [] _ _ _
      (Schedule.interleaving_flatten [caller, rest])
  have hle : 2 ≤ Schedule.threadCount 2 0 (jsonFiles entries).length := by
    rw [hfiles]
    decide
  have hevaluated := (schedule_independent hroot hnumbers 2 0 (by decide) hle warning horder).1
  refine ⟨fs, entries, warning, _, hroot, hfiles, horder, rfl, hevaluated.trans ?_⟩
  rw [hfiles]
  exact .refl _

end FieldRules.Worker

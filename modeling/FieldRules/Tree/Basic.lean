import FieldRules.Tree.Files
import FieldRules.Tree.Schedule
import FieldRules.Validator.Basic

/-!
# Validating a tree

* `FileResult` is what becomes of one file, `TreeReport` what becomes of all.
* `Progress` is the state that threads work on: a slot for each file and two counters.
* `Validator.validateTree` evaluates every JSON file below a directory.

A file that cannot be read or judged has an error text and stops nothing. A directory that cannot be
listed is an error before any file is read; after that only a number beyond the range of binary64
ends the run.
-/

namespace FieldRules

/-! ### Results -/

/-- What becomes of a file: its outcome, or the message of its error. -/
structure FileResult where
  /-- The names of the file from the root of the tree. -/
  names : List Bytes
  outcome : Except Bytes Outcome

namespace FileResult

/-- The path of the file from the root of the tree. -/
def path (result : FileResult) : Bytes :=
  Bytes.joinWith [Ascii.slash] result.names

/-- Holds of a file that counts as checked: one with an error, or without skipped elements or with
violations. -/
def isChecked (result : FileResult) : Bool :=
  match result.outcome with
  | .ok .skipped => false
  | _ => true

/-- Holds of a file that has passed. -/
def isValid (result : FileResult) : Bool :=
  match result.outcome with
  | .ok .passed => true
  | _ => false

/-- The log entry on a file. -/
def entry (result : FileResult) : Log.Entry :=
  match result.outcome with
  | .error message => ⟨.warning, message⟩
  | .ok outcome => ⟨.debug, result.path ++ utf8 ": " ++ outcome.name⟩

end FileResult

/-- What becomes of the files of a tree. -/
structure TreeReport where
  files : List FileResult
  /-- The number of files that count as checked. -/
  checked : Nat
  /-- The number of files that have passed. -/
  valid : Nat

/-- The summary of a report. -/
def TreeReport.summary (report : TreeReport) : Bytes :=
  Numeral.ofNat report.valid ++ utf8 " / " ++ Numeral.ofNat report.checked ++
    utf8 " annotations are valid."

/-! ### Progress -/

/-- The state of a run: a slot for the result of each file, and the counters. -/
structure Progress where
  slots : List (Option FileResult)
  checked : Nat
  valid : Nat

namespace Progress

/-- The state before any file is done. -/
def start (files : Nat) : Progress where
  slots := List.replicate files none
  checked := 0
  valid := 0

/-- The state after the file at a place is done. -/
def record (progress : Progress) (place : Nat) (result : FileResult) : Progress where
  slots := progress.slots.set place (some result)
  checked := progress.checked + result.isChecked.toNat
  valid := progress.valid + result.isValid.toNat

/-- The report on the files that are done. -/
def report (progress : Progress) : TreeReport where
  files := progress.slots.filterMap id
  checked := progress.checked
  valid := progress.valid

end Progress

/-! ### Runs -/

namespace Validator

variable [DoublePrinter]

/-- Evaluates the file with the given names below a root. The error is the token of a number beyond
the range of binary64. -/
def checkFile (validator : Validator) (fs : FileSystem) (root : Bytes) (names : List Bytes) :
    Logged (Except Bytes FileResult) := do
  let result ← validator.evaluateFile fs (Path.below root names)
  match result with
  | .error (.read (.overflow token)) => return .error token
  | .error failure => finish ⟨names, .error failure.describe⟩
  | .ok report => finish ⟨names, .ok report.outcome⟩
where
  /-- Logs the result of a file. -/
  finish (result : FileResult) : Logged (Except Bytes FileResult) :=
    ⟨.ok result, [result.entry]⟩

/-- Evaluates the files at the given places in order. -/
def runFiles (check : List Bytes → Logged (Except Bytes FileResult)) (paths : List (List Bytes))
    (progress : Progress) :
    List Nat → Logged (Except Bytes Progress)
  | [] => pure (.ok progress)
  | place :: rest =>
    match paths[place]? with
    | none => runFiles check paths progress rest
    | some names => do
      match ← check names with
      | .error token => return .error token
      | .ok result => runFiles check paths (progress.record place result) rest

/-- Evaluates every JSON file below the directory that a path names, with the files shared out among
threads. -/
def validateTree (validator : Validator) (fs : FileSystem) (root : Bytes) (threads cores : Nat) :
    Logged (Except ReadFailure TreeReport) :=
  match fs.listFiles root with
  | .error error => pure (.error (.document error))
  | .ok paths => do
    let count := Schedule.threadCount threads cores paths.length
    let order := Schedule.sequential count count paths.length
    match ← runFiles (validator.checkFile fs root) paths (.start paths.length) order with
    | .error token => return .error (.overflow token)
    | .ok progress => do
      let report := progress.report
      Logged.log .info (root ++ utf8 ": " ++ report.summary)
      return .ok report

end Validator

end FieldRules

import FieldRules.Tree.Basic
import Mathlib.Data.List.Basic
import Mathlib.Data.List.Induction

/-!
# Steps of workers

What threads do to the state they share, one step at a time.

* `Worker.Step`: evaluate a file, log an entry, fill the slot of a file, or add one to a counter.
* `Worker.State.run`: the state after some steps.
* `Worker.State.Follows`: what a state owes to the steps taken; `follows_run` shows it of every run.
* `Worker.run_perm`: runs that take the same steps in different orders end alike, if they fill no
  slot twice.
-/

namespace FieldRules

namespace Worker

/-! ### Steps -/

/-- A step of a worker. Steps are atomic: slots are apart from each other, counters and log are
shared. -/
inductive Step
  | evaluate (place : Nat)
  | log (entry : Log.Entry)
  | store (place : Nat) (result : FileResult)
  | countValid
  | countChecked

/-- The state that workers share: the progress, the places evaluated so far and the entries logged
so far. -/
structure State where
  progress : Progress
  evaluated : List Nat := []
  entries : List Log.Entry := []

namespace Step

/-- The state after a step. -/
def apply (state : State) : Step → State
  | .evaluate place => { state with evaluated := state.evaluated ++ [place] }
  | .log entry => { state with entries := state.entries ++ [entry] }
  | .store place result =>
    { state with
      progress := { state.progress with slots := state.progress.slots.set place (some result) } }
  | .countValid =>
    { state with progress := { state.progress with valid := state.progress.valid + 1 } }
  | .countChecked =>
    { state with progress := { state.progress with checked := state.progress.checked + 1 } }

/-- The place that a step evaluates. -/
def evaluated? : Step → Option Nat
  | .evaluate place => some place
  | _ => none

/-- The entry that a step logs. -/
def entry? : Step → Option Log.Entry
  | .log entry => some entry
  | _ => none

/-- The result that a step puts into the slot of a place. -/
def stored? (place : Nat) : Step → Option FileResult
  | .store other result => if other = place then some result else none
  | _ => none

/-- Holds of a step that fills the slot of a place. -/
def writes (place : Nat) (step : Step) : Bool :=
  (step.stored? place).isSome

/-- Holds of a step that counts a file as valid. -/
def countsValid : Step → Bool
  | .countValid => true
  | _ => false

/-- Holds of a step that counts a file as checked. -/
def countsChecked : Step → Bool
  | .countChecked => true
  | _ => false

/-! ### What one step changes -/

variable (state : State) (step : Step)

theorem evaluated_apply :
    (step.apply state).evaluated = state.evaluated ++ step.evaluated?.toList := by
  cases step <;> simp [apply, evaluated?]

theorem entries_apply : (step.apply state).entries = state.entries ++ step.entry?.toList := by
  cases step <;> simp [apply, entry?]

theorem valid_apply :
    (step.apply state).progress.valid = state.progress.valid + step.countsValid.toNat := by
  cases step <;> simp [apply, countsValid]

theorem checked_apply :
    (step.apply state).progress.checked = state.progress.checked + step.countsChecked.toNat := by
  cases step <;> simp [apply, countsChecked]

theorem length_slots_apply :
    (step.apply state).progress.slots.length = state.progress.slots.length := by
  cases step <;> simp [apply]

theorem slots_apply {place : Nat} (hplace : place < state.progress.slots.length) :
    (step.apply state).progress.slots[place]? =
      (step.stored? place).elim state.progress.slots[place]? fun result => some (some result) := by
  cases step with
  | store other result =>
    by_cases hother : other = place
    · simp [apply, stored?, hother, hplace]
    · simp [apply, stored?, hother]
  | _ => rfl

end Step

namespace State

/-- The state in which a run over files starts. -/
def start (files : Nat) : State :=
  { progress := .start files }

/-- The state after steps. -/
def run (state : State) (steps : List Step) : State :=
  steps.foldl Step.apply state

theorem run_cons (state : State) (step : Step) (steps : List Step) :
    state.run (step :: steps) = (step.apply state).run steps := rfl

theorem run_append (state : State) (steps others : List Step) :
    state.run (steps ++ others) = (state.run steps).run others :=
  List.foldl_append

/-- What a state owes to the steps taken from the start. -/
structure Follows (files : Nat) (steps : List Step) (state : State) : Prop where
  evaluated : state.evaluated = steps.filterMap Step.evaluated?
  entries : state.entries = steps.filterMap Step.entry?
  valid : state.progress.valid = steps.countP Step.countsValid
  checked : state.progress.checked = steps.countP Step.countsChecked
  length : state.progress.slots.length = files
  slots : ∀ place < files,
    state.progress.slots[place]? = some (steps.filterMap (Step.stored? place)).getLast?

variable {files : Nat} {steps : List Step} {state : State}

theorem follows_start (files : Nat) : Follows files [] (start files) where
  evaluated := rfl
  entries := rfl
  valid := rfl
  checked := rfl
  length := List.length_replicate
  slots := by
    intro place hplace
    simp [start, Progress.start, hplace]

/-- One more step keeps a state in line with the steps taken. -/
theorem Follows.apply (h : Follows files steps state) (step : Step) :
    Follows files (steps ++ [step]) (step.apply state) := by
  refine ⟨?_, ?_, ?_, ?_, ?_, ?_⟩
  · rw [Step.evaluated_apply, h.evaluated, List.filterMap_append]
    cases hstep : step.evaluated? <;> simp [hstep]
  · rw [Step.entries_apply, h.entries, List.filterMap_append]
    cases hstep : step.entry? <;> simp [hstep]
  · rw [Step.valid_apply, h.valid, List.countP_append]
    cases hstep : step.countsValid <;> simp [hstep]
  · rw [Step.checked_apply, h.checked, List.countP_append]
    cases hstep : step.countsChecked <;> simp [hstep]
  · rw [Step.length_slots_apply, h.length]
  · intro place hplace
    rw [Step.slots_apply state step (h.length.symm ▸ hplace), List.filterMap_append]
    cases hstep : step.stored? place <;> simp [hstep, h.slots place hplace]

/-- Every run is in line with its steps. -/
theorem follows_run (files : Nat) (steps : List Step) :
    Follows files steps ((start files).run steps) := by
  induction steps using List.reverseRecOn with
  | nil => exact follows_start files
  | append_singleton steps step ih =>
    rw [run_append]
    exact ih.apply step

/-- Logging alone touches nothing else. -/
theorem filterMap_map_log {β : Type} {f : Step → Option β} (hlog : ∀ entry, f (.log entry) = none)
    (logged : List Log.Entry) : (logged.map Step.log).filterMap f = [] := by
  simp [List.filterMap_map, hlog]

/-- Only one list has the members of a list that has one at most. -/
theorem eq_of_perm_of_length_le_one {β : Type} {list other : List β} (hperm : list.Perm other)
    (hlength : other.length ≤ 1) : list = other := by
  match other with
  | [] => exact hperm.eq_nil
  | [b] => exact List.perm_singleton.1 hperm
  | _ :: _ :: _ => simp at hlength

/-- Runs that take the same steps in different orders end alike, if no slot is filled twice. What
one of them logs in addition is all that the logs differ in, up to their order. -/
theorem run_perm {logged : List Log.Entry} {others : List Step}
    (hperm : steps.Perm (logged.map .log ++ others))
    (honce : ∀ place < files, (others.filterMap (Step.stored? place)).length ≤ 1) :
    ((start files).run steps).progress = ((start files).run others).progress ∧
    ((start files).run steps).evaluated.Perm ((start files).run others).evaluated ∧
    ((start files).run steps).entries.Perm (logged ++ ((start files).run others).entries) := by
  have hsteps := follows_run files steps
  have hothers := follows_run files others
  generalize (start files).run steps = state at hsteps ⊢
  generalize (start files).run others = other at hothers ⊢
  refine ⟨?_, ?_, ?_⟩
  -- a slot keeps the last result stored in it; as there is one at most, the order does not matter
  · have hslots : state.progress.slots = other.progress.slots := by
      refine List.ext_getElem? fun place => ?_
      rcases Nat.lt_or_ge place files with hlt | hge
      · have hstored := hperm.filterMap (Step.stored? place)
        rw [List.filterMap_append, filterMap_map_log (fun _ => rfl), List.nil_append] at hstored
        rw [hsteps.slots place hlt, hothers.slots place hlt,
          eq_of_perm_of_length_le_one hstored (honce place hlt)]
      · rw [List.getElem?_eq_none (by rw [hsteps.length]; exact hge),
          List.getElem?_eq_none (by rw [hothers.length]; exact hge)]
    have hvalid : state.progress.valid = other.progress.valid := by
      rw [hsteps.valid, hothers.valid, hperm.countP_eq, List.countP_append]
      simp [List.countP_map, Function.comp_def, Step.countsValid]
    have hchecked : state.progress.checked = other.progress.checked := by
      rw [hsteps.checked, hothers.checked, hperm.countP_eq, List.countP_append]
      simp [List.countP_map, Function.comp_def, Step.countsChecked]
    obtain ⟨⟨slots, checked, valid⟩, _, _⟩ := state
    obtain ⟨⟨_, _, _⟩, _, _⟩ := other
    cases hslots
    cases hvalid
    cases hchecked
    rfl
  · rw [hsteps.evaluated, hothers.evaluated]
    have := hperm.filterMap Step.evaluated?
    rwa [List.filterMap_append, filterMap_map_log (fun _ => rfl), List.nil_append] at this
  · rw [hsteps.entries, hothers.entries]
    have hlogged : (logged.map Step.log).filterMap Step.entry? = logged := by
      rw [List.filterMap_map]
      exact List.filterMap_some
    have := hperm.filterMap Step.entry?
    rwa [List.filterMap_append, hlogged] at this

end State

end Worker

end FieldRules

/-!
# Schedules

The files of a tree are shared out among threads in stripes: with `threads` threads, the file at
place `i` belongs to stripe `i % threads`.

* `Schedule.stripe` are the places of one stripe.
* `Schedule.work` is what each thread does, some of which may not have started.
* `Schedule.Interleaving` relates lists of steps to the orders in which threads may take them.
-/

namespace FieldRules.Schedule

/-- The number of threads to use for a number of files; zero asks for one thread per core. There is
never more than one thread for a file, and always one. -/
def threadCount (requested cores files : Nat) : Nat :=
  min (if requested = 0 then max 1 cores else requested) (max files 1)

/-- The places of the stripe with the given number. -/
def stripe (threads files first : Nat) : List Nat :=
  (List.range files).filter fun place => place % threads == first

/-- What the calling thread does: the first stripe, and the stripes of all threads from `started`
on, which did not start. -/
def callerWork (threads started files : Nat) : List Nat :=
  stripe threads files 0 ++ (List.range' started (threads - started)).flatMap (stripe threads files)

/-- What the threads do, the calling thread first. The calling thread counts as started. -/
def work (threads started files : Nat) : List (List Nat) :=
  callerWork threads started files :: (List.range' 1 (started - 1)).map (stripe threads files)

/-- Holds of the orders in which steps can be taken if each list keeps its own order. -/
inductive Interleaving {α : Type} : List (List α) → List α → Prop
  | done {lists : List (List α)} : (∀ list ∈ lists, list = []) → Interleaving lists []
  | step {before after : List (List α)} {a : α} {rest order : List α} :
    Interleaving (before ++ rest :: after) order →
      Interleaving (before ++ (a :: rest) :: after) (a :: order)

/-- The order in which one thread after the other does its work. -/
def sequential (threads started files : Nat) : List Nat :=
  (work threads started files).flatten

end FieldRules.Schedule

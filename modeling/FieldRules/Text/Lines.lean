import FieldRules.Text.Trim

/-!
# Lines of a text

A line ends at a line feed. Blank lines count for the numbering and are not delivered.

* `Bytes.lines` cuts a text at its line feeds.
* `Line.ofText` gives the numbered, trimmed lines that are not blank.
* `Line.visit` hands lines to a step until the step is done.
-/

namespace FieldRules

/-- The parts of a text between line feeds. -/
def Bytes.lines (text : Bytes) : List Bytes :=
  text.splitOn Ascii.lineFeed

/-- A line with its number in the text, counted from one. -/
structure Line where
  number : Nat
  text : Bytes
  deriving DecidableEq, Repr

namespace Line

/-- The lines of a text that are not blank, trimmed, each with its number. A line feed at the very
end opens no further line, for what follows it is blank. -/
def ofText (text : Bytes) : List Line :=
  (text.lines.zipIdx 1).filterMap fun (part, number) =>
    match part.trim with
    | [] => none
    | trimmed => some ⟨number, trimmed⟩

/-- Hands the lines one by one to `step`, until it is done or no line is left. -/
def visit {σ : Type} (step : σ → Line → ForInStep σ) : σ → List Line → σ
  | state, [] => state
  | state, line :: rest =>
    match step state line with
    | .done state => state
    | .yield state => visit step state rest

@[simp] theorem visit_nil {σ : Type} (step : σ → Line → ForInStep σ) (state : σ) :
    visit step state [] = state := rfl

theorem visit_cons {σ : Type} (step : σ → Line → ForInStep σ) (state : σ) (line : Line)
    (rest : List Line) :
    visit step state (line :: rest) =
      match step state line with
      | .done state => state
      | .yield state => visit step state rest := rfl

end Line

theorem Bytes.lines_append_lineFeed (a b : Bytes) :
    lines (a ++ Ascii.lineFeed :: b) = lines a ++ lines b :=
  splitOn_append Ascii.lineFeed a b

end FieldRules

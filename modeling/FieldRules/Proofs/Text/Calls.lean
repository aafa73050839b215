import FieldRules.Proofs.Text.Delivered

/-!
# Lines that a step is called with

A text is read line by line, and each line that is not blank is handed to a step, until the step is
done. Which lines these are is told here from the bytes of the text alone.

* `Bytes.IsLine`, `Line.mem_ofText_iff`: a line of a text with its number, and which lines are
  delivered.
* `Line.pairwise_numbered`: the numbers increase.
* `Line.ofText_append_lineFeed`: the lines of two texts with a line feed between them.
* `Line.ofText_joinWith`: texts that were delivered, read again.
* `Line.calls`: the lines that a step is called with; `calls_of_isDoneAt` and `calls_of_never` say
  which.
* `calls_exact`: all of it for one text.
-/

namespace FieldRules

namespace Bytes

/-! ### Lines of a text -/

/-- Holds of a line of a text with its number. It holds no line feed, begins the text or follows a
line feed, and ends in front of the next one. Behind the last line feed is a line only if something
is left there. -/
def IsLine (text : Bytes) (number : Nat) (line : Bytes) : Prop :=
  ∃ front back, text = front ++ (line ++ back) ∧ number = front.count Ascii.lineFeed + 1 ∧
    Ascii.lineFeed ∉ line ∧ (front = [] ∨ front.getLast? = some Ascii.lineFeed) ∧
    (back.head? = some Ascii.lineFeed ∨ back = [] ∧ line ≠ [])

variable {text line : Bytes}

/-- A line in front of a line feed, or of nothing, is the first part. -/
theorem exists_lines_append {back : Bytes} (hline : Ascii.lineFeed ∉ line)
    (hback : back.head? = some Ascii.lineFeed ∨ back = []) :
    ∃ others, lines (line ++ back) = line :: others := by
  rcases hback with hback | rfl
  · obtain ⟨tail, rfl⟩ := List.head?_eq_some_iff.1 hback
    exact ⟨lines tail, by rw [lines_append_lineFeed, lines_of_not_mem hline, List.singleton_append]⟩
  · exact ⟨[], by rw [List.append_nil, lines_of_not_mem hline]⟩

theorem exists_of_lines_eq_cons {others : List Bytes} (h : text.lines = line :: others) :
    ∃ back, text = line ++ back ∧ (back.head? = some Ascii.lineFeed ∨ back = []) := by
  by_cases hothers : others = []
  · have hlength := length_lines text
    rw [h, hothers, List.length_singleton] at hlength
    have hnone : Ascii.lineFeed ∉ text := List.count_eq_zero.1 (by omega)
    rw [lines_of_not_mem hnone, List.cons.injEq] at h
    exact ⟨[], by rw [h.1, List.append_nil], Or.inr rfl⟩
  · obtain ⟨rest, rfl, -⟩ := exists_of_splitOn_eq_cons h hothers
    exact ⟨Ascii.lineFeed :: rest, rfl, Or.inl rfl⟩

/-- The lines of a text that are not empty are its parts that are not empty, with the number of
parts up to them. -/
theorem isLine_iff (hne : line ≠ []) {number : Nat} :
    text.IsLine number line ↔ ∃ before after, text.lines = before ++ line :: after ∧
      number = before.length + 1 := by
  constructor
  · rintro ⟨front, back, rfl, rfl, hline, hfront, hback⟩
    obtain ⟨after, hafter⟩ := exists_lines_append hline (hback.imp_right And.left)
    rcases hfront with rfl | hfront
    · exact ⟨[], after, hafter, rfl⟩
    · obtain ⟨start, rfl⟩ := List.getLast?_eq_some_iff.1 hfront
      refine ⟨lines start, after, ?_, ?_⟩
      · rw [List.append_assoc, List.singleton_append, lines_append_lineFeed, hafter]
      · rw [List.count_append, List.count_singleton_self, length_lines]
  · rintro ⟨before, after, hlines, rfl⟩
    have hmem (part : Bytes) (hpart : part ∈ before ++ line :: after) : Ascii.lineFeed ∉ part :=
      not_mem_of_mem_splitOn (hlines ▸ hpart : part ∈ text.lines)
    have hbefore : ∀ part ∈ before, Ascii.lineFeed ∉ part :=
      fun part hpart => hmem part (by simp [hpart])
    -- the line is in front of all that the earlier parts and their line feeds leave
    obtain ⟨rest, rfl⟩ := exists_eq_unlines_append hlines
    rw [lines_unlines_append hbefore] at hlines
    obtain ⟨back, rfl, hback⟩ := exists_of_lines_eq_cons (List.append_cancel_left hlines)
    refine ⟨unlines before, back,
      rfl, by rw [count_lineFeed_unlines hbefore], hmem line (by simp), ?_, ?_⟩
    · rcases List.eq_nil_or_concat before with rfl | ⟨others, last, rfl⟩
      · exact Or.inl rfl
      · right
        rw [unlines, List.concat_eq_append, List.flatMap_append,
          List.flatMap_singleton, ← List.append_assoc, List.getLast?_concat]
    · exact hback.imp_right fun hnil => ⟨hnil, hne⟩

end Bytes

namespace Line

/-! ### Lines that are delivered -/

variable {line : Line} {first : Nat} {parts texts : List Bytes}

/-- The lines of a text that are delivered are those that are not blank, trimmed, with their
numbers. -/
theorem mem_ofText_iff {text : Bytes} : line ∈ ofText text ↔
    ∃ part, text.IsLine line.number part ∧ part.trim ≠ [] ∧ line.text = part.trim := by
  have hne {part : Bytes} (h : part.trim ≠ []) : part ≠ [] := by
    rintro rfl
    exact h Bytes.trim_nil
  rw [ofText_eq_numbered, mem_numbered_iff]
  constructor
  · rintro ⟨before, part, after, hlines, htrim, rfl⟩
    exact ⟨part, (Bytes.isLine_iff (hne htrim)).2 ⟨before, after, hlines, Nat.add_comm ..⟩,
      htrim, rfl⟩
  · rintro ⟨part, hline, htrim, htext⟩
    obtain ⟨before, after, hlines, hnumber⟩ := (Bytes.isLine_iff (hne htrim)).1 hline
    refine ⟨before, part, after, hlines, htrim, ?_⟩
    cases line
    simp only at hnumber htext
    rw [hnumber, htext, Nat.add_comm]

theorem pairwise_numbered (first : Nat) (parts : List Bytes) :
    (numbered first parts).Pairwise fun line later => line.number < later.number := by
  induction parts generalizing first with
  | nil => exact .nil
  | cons part parts ih =>
    by_cases hblank : part.trim = []
    · rw [numbered_cons_of_blank hblank]
      exact ih (first + 1)
    · rw [numbered_cons hblank]
      refine .cons (fun later hlater => ?_) (ih (first + 1))
      obtain ⟨before, _, _, -, -, rfl⟩ := mem_numbered_iff.1 hlater
      show first < first + 1 + before.length
      omega

/-- A line of a text with more lines in front of it. -/
def shift (count : Nat) (line : Line) : Line :=
  { line with number := line.number + count }

theorem numbered_add (first count : Nat) (parts : List Bytes) :
    numbered (first + count) parts = (numbered first parts).map (shift count) := by
  induction parts generalizing first with
  | nil => rfl
  | cons part parts ih =>
    have hnext : numbered (first + count + 1) parts =
        (numbered (first + 1) parts).map (shift count) := by
      rw [← ih, Nat.add_right_comm]
    by_cases hblank : part.trim = []
    · rw [numbered_cons_of_blank hblank, numbered_cons_of_blank hblank, hnext]
    · rw [numbered_cons hblank, numbered_cons hblank, hnext]
      rfl

/-- A line feed between two texts keeps their lines apart, and the numbers go on behind it. -/
theorem ofText_append_lineFeed (a b : Bytes) : ofText (a ++ Ascii.lineFeed :: b) =
    ofText a ++ (ofText b).map (shift (a.count Ascii.lineFeed + 1)) := by
  simp only [ofText_eq_numbered, Bytes.lines_append_lineFeed, numbered_append,
    Bytes.length_lines, numbered_add]

/-- Texts that were delivered are delivered again with a line feed between neighbours, with numbers
in sequence. -/
theorem ofText_joinWith (h : ∀ text ∈ texts, Delivered text) :
    ofText (Bytes.joinWith [Ascii.lineFeed] texts) = (texts.zipIdx 1).map fun (text, number) =>
      ⟨number, text⟩ := by
  cases texts with
  | nil => rfl
  | cons text texts =>
    have hlines : (Bytes.joinWith [Ascii.lineFeed] (text :: texts)).lines = text :: texts :=
      Bytes.splitOn_joinWith fun part hpart => (h part hpart).lineFeed_not_mem
    rw [ofText_eq_numbered, hlines, numbered_of_delivered h]

/-! ### Calls -/

section Calls

variable {σ : Type} {step : σ → Line → ForInStep σ} {state next : σ} {lines : List Line}

/-- A step that keeps the lines it is called with beside its own state. -/
def recording (step : σ → Line → ForInStep σ) : σ × List Line → Line → ForInStep (σ × List Line)
  | (state, seen), line =>
    match step state line with
    | .done next => .done (next, seen ++ [line])
    | .yield next => .yield (next, seen ++ [line])

/-- The lines that a step is called with. -/
def calls (step : σ → Line → ForInStep σ) (state : σ) (lines : List Line) : List Line :=
  (visit (recording step) (state, []) lines).2

/-- Keeping the lines changes nothing else, and lines that were kept stay. -/
theorem visit_recording (step : σ → Line → ForInStep σ) (state : σ) (seen lines : List Line) :
    visit (recording step) (state, seen) lines =
      (visit step state lines, seen ++ calls step state lines) := by
  induction lines generalizing state seen with
  | nil => simp [calls]
  | cons line lines ih =>
    simp only [calls, visit_cons, recording]
    cases step state line with
    | done next => rfl
    | yield next => simp [ih next]

theorem calls_cons_of_done (h : step state line = .done next) (lines : List Line) :
    calls step state (line :: lines) = [line] := by
  simp [calls, visit_cons, recording, h]

theorem calls_cons_of_yield (h : step state line = .yield next) (lines : List Line) :
    calls step state (line :: lines) = line :: calls step next lines := by
  have hnext : recording step (state, []) line = .yield (next, [line]) := by simp [recording, h]
  rw [calls, visit_cons, hnext]
  dsimp only
  rw [visit_recording, List.singleton_append]

/-- Holds of the number of the call at which a step is first done, if it is called with some lines
one after the other. -/
inductive IsDoneAt (step : σ → Line → ForInStep σ) : σ → List Line → Nat → Prop
  | now {state next : σ} {line : Line} {lines : List Line} (h : step state line = .done next) :
    IsDoneAt step state (line :: lines) 1
  | later {state next : σ} {line : Line} {lines : List Line} {count : Nat}
    (h : step state line = .yield next)
    (hrest : IsDoneAt step next lines count) : IsDoneAt step state (line :: lines) (count + 1)

/-- A step is called up to the time it is done. -/
theorem calls_of_isDoneAt {count : Nat} (h : IsDoneAt step state lines count) :
    calls step state lines = lines.take count := by
  induction h with
  | now hdone => rw [calls_cons_of_done hdone, List.take_succ_cons, List.take_zero]
  | later hyield _ ih => rw [calls_cons_of_yield hyield, ih, List.take_succ_cons]

theorem calls_of_never (h : ∀ count, ¬ IsDoneAt step state lines count) :
    calls step state lines = lines := by
  induction lines generalizing state with
  | nil => rfl
  | cons line lines ih =>
    cases hstep : step state line with
    | done next => exact absurd (.now hstep) (h 1)
    | yield next => rw [calls_cons_of_yield hstep, ih fun count hcount =>
        h (count + 1) (.later hstep hcount)]

end Calls

/-- Reading a text line by line. A line is delivered exactly if it stands in the text under its
number, between line feeds or the ends of the text, and is not blank; it is delivered trimmed, and
the numbers increase. What is delivered is not empty, has no line feed and no white space at its
ends. A step that is never done is called with all of these lines, in order, one that is first done
at some call with the lines up to that call; either way it comes to the state that visiting gives
it. Of two texts with a line feed between them the lines are those of the one and then those of the
other, with the numbers going on behind all line feeds so far. What is delivered, joined by line
feeds, is delivered again, numbered from one. -/
theorem calls_exact (text : Bytes) :
    (∀ line, line ∈ ofText text ↔ ∃ part, text.IsLine line.number part ∧ part.trim ≠ [] ∧
      line.text = part.trim) ∧
    (ofText text).Pairwise (fun line later => line.number < later.number) ∧
    (∀ line ∈ ofText text, Delivered line.text) ∧
    (∀ (σ : Type) (step : σ → Line → ForInStep σ) (state : σ),
      visit (recording step) (state, []) (ofText text) =
        (visit step state (ofText text), calls step state (ofText text)) ∧
      ((∀ count, ¬ IsDoneAt step state (ofText text) count) →
        calls step state (ofText text) = ofText text) ∧
      ∀ count, IsDoneAt step state (ofText text) count →
        calls step state (ofText text) = (ofText text).take count) ∧
    (∀ other, ofText (text ++ Ascii.lineFeed :: other) =
      ofText text ++ (ofText other).map (shift (text.count Ascii.lineFeed + 1))) ∧
    ofText (Bytes.joinWith [Ascii.lineFeed] ((ofText text).map Line.text)) =
      (((ofText text).map Line.text).zipIdx 1).map fun (text, number) => ⟨number, text⟩ := by
  refine ⟨fun line => mem_ofText_iff, pairwise_numbered 1 text.lines, fun line =>
    delivered_of_mem_ofText, ?_,
    ofText_append_lineFeed text, ?_⟩
  · intro σ step state
    exact ⟨visit_recording step state [] _, calls_of_never, fun count => calls_of_isDoneAt⟩
  · refine ofText_joinWith fun part hpart => ?_
    obtain ⟨line, hline, rfl⟩ := List.mem_map.1 hpart
    exact delivered_of_mem_ofText hline

/-- A carriage return and an empty line count and are not delivered, a NUL byte is; the step is done
with the second call and does not get to the line without an end. -/
theorem calls_exact_of_early_end :
    let text := utf8 "\r\na\n\n b\x00 \nc"
    let step : Nat → Line → ForInStep Nat :=
      fun count _ => if count = 1 then .done 2 else .yield (count + 1)
    text.IsLine 4 (utf8 " b\x00 ") ∧ ⟨4, utf8 "b\x00"⟩ ∈ ofText text ∧ Delivered (utf8 "b\x00") ∧
      IsDoneAt step 0 (ofText text) 2 ∧
        calls step 0 (ofText text) = [⟨2, utf8 "a"⟩, ⟨4, utf8 "b\x00"⟩] := by
  intro text step
  have hlines : ofText text = [⟨2, utf8 "a"⟩, ⟨4, utf8 "b\x00"⟩, ⟨5, utf8 "c"⟩] := by decide
  have hpart : text.IsLine 4 (utf8 " b\x00 ") :=
    ⟨utf8 "\r\na\n\n",
      utf8 "\nc", by decide, by decide, by decide, Or.inr (by decide), Or.inl (by decide)⟩
  have hdone : IsDoneAt step 0 (ofText text) 2 := by
    rw [hlines]
    exact .later rfl (.now rfl)
  obtain ⟨hmem, -, hdelivered, hcalls, -⟩ := calls_exact text
  have hline : ⟨4, utf8 "b\x00"⟩ ∈ ofText text := (hmem _).2 ⟨_, hpart, by decide, by decide⟩
  refine ⟨hpart, hline, hdelivered _ hline, hdone, ?_⟩
  rw [(hcalls Nat step 0).2.2 2 hdone, hlines]
  rfl

end Line

end FieldRules

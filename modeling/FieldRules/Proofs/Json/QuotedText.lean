import FieldRules.Json.Quoted
import FieldRules.Proofs.Text.Utf8

/-!
# Quoted strings read back

What is written within quotes for a string is read as the string, and only strings of well-formed
UTF-8 are read.

* `Quoted.Stands`: a text that stands for some bytes within quotes, whatever follows.
* `stands_escape`, `stands_flatMap_escape`: what is written for one byte, and for a string.
* `scan_write`: a string of well-formed UTF-8 is read as it is written.
* `isWellFormed_of_decode`: a string that is read is well-formed UTF-8.
-/

namespace FieldRules.Quoted

open Utf8 (Continues)

variable {b : UInt8}

/-! ### One byte -/

theorem split_quote (rest : Bytes) : split (Ascii.quote :: rest) = some ([], rest) := by
  rw [split.eq_def]
  exact if_pos rfl

theorem split_of_plain (hquote : b ≠ Ascii.quote) (hbackslash : b ≠ Ascii.backslash)
    (tail : Bytes) :
    split (b :: tail) = (split tail).map fun (body, after) => (b :: body, after) := by
  rw [split.eq_def]
  exact (if_neg hquote).trans (if_neg hbackslash)

theorem split_escaped (e : UInt8) (tail : Bytes) :
    split (Ascii.backslash :: e :: tail) =
      (split tail).map fun (body, after) => (Ascii.backslash :: e :: body, after) := by
  rw [split.eq_def]
  exact (if_neg (by decide)).trans (if_pos rfl)

theorem pieces_of_plain (hcontrol : ¬ b < 0x20) (hbackslash : b ≠ Ascii.backslash) (tail : Bytes) :
    pieces (b :: tail) = (pieces tail).map (.byte b :: ·) := by
  rw [pieces.eq_def]
  dsimp only
  rw [if_neg hcontrol, if_neg hbackslash]
  cases pieces tail <;> rfl

theorem pieces_short {e : UInt8} (he : e ≠ Ascii.lowerU) (hshort : shortEscape? e = some b)
    (tail : Bytes) :
    pieces (Ascii.backslash :: e :: tail) = (pieces tail).map (.byte b :: ·) := by
  rw [pieces.eq_def]
  dsimp only
  rw [if_neg (by decide), if_pos rfl, if_neg he, hshort]
  cases pieces tail <;> rfl

theorem pieces_unit {h₁ h₂ h₃ h₄ : UInt8} {n : Nat} (hunit : unit? h₁ h₂ h₃ h₄ = some n)
    (tail : Bytes) :
    pieces (Ascii.backslash :: Ascii.lowerU :: h₁ :: h₂ :: h₃ :: h₄ :: tail) =
      (pieces tail).map (.unit n :: ·) := by
  rw [pieces.eq_def]
  dsimp only
  rw [if_neg (by decide), if_pos rfl, if_pos rfl, hunit]
  cases pieces tail <;> rfl

theorem assemble_byte (b : UInt8) (rest : List Piece) :
    assemble (.byte b :: rest) = (assemble rest).map (b :: ·) := by
  rw [assemble]

/-- A unit that is no surrogate stands for a character alone. -/
theorem assemble_unit {n : Nat} (hn : n < 0xD800) (rest : List Piece) :
    assemble (.unit n :: rest) = (assemble rest).map (Utf8.encode n ++ ·) := by
  have hhigh : isHighSurrogate n = false := by
    rw [isHighSurrogate, Bool.and_eq_false_iff]
    exact Or.inl (decide_eq_false (Nat.not_le.2 hn))
  have hlow : isLowSurrogate n = false := by
    rw [isLowSurrogate, Bool.and_eq_false_iff]
    exact Or.inl (decide_eq_false (by omega))
  rw [assemble.eq_def]
  simp [hhigh, hlow]

/-! ### Writing -/

/-- Holds of a text that stands for some bytes within quotes, whatever follows: no quote in it ends
the string, the check of UTF-8 goes on as behind the bytes, and its pieces are put together to the
bytes. -/
structure Stands (text s : Bytes) : Prop where
  split_append : ∀ tail, split (text ++ tail) = (split tail).map fun (body, after) =>
    (text ++ body, after)
  run_eq : ∀ owed, Continues owed → Utf8.run owed text = Utf8.run owed s
  exists_pieces : ∃ list, (∀ tail, pieces (text ++ tail) = (pieces tail).map (list ++ ·)) ∧
    ∀ rest, assemble (list ++ rest) = (assemble rest).map (s ++ ·)

theorem stands_nil : Stands [] [] where
  split_append tail := by simp
  run_eq _ _ := rfl
  exists_pieces := ⟨[], fun tail => by simp, fun rest => by simp⟩

theorem Stands.append {text s text' s' : Bytes} (h : Stands text s) (h' : Stands text' s') :
    Stands (text ++ text') (s ++ s') where
  split_append tail := by
    rw [List.append_assoc, h.split_append, h'.split_append, Option.map_map]
    simp only [Function.comp_def, List.append_assoc]
  run_eq owed howed := by
    rw [Utf8.run_append, Utf8.run_append, h.run_eq owed howed]
    cases hrun : Utf8.run owed s with
    | none => rfl
    | some next => exact h'.run_eq next (howed.run hrun)
  exists_pieces := by
    obtain ⟨list, hpieces, hassemble⟩ := h.exists_pieces
    obtain ⟨list', hpieces', hassemble'⟩ := h'.exists_pieces
    refine ⟨list ++ list', fun tail => ?_, fun rest => ?_⟩
    · rw [List.append_assoc, hpieces, hpieces', Option.map_map]
      simp only [Function.comp_def, List.append_assoc]
    · rw [List.append_assoc, hassemble, hassemble', Option.map_map]
      simp only [Function.comp_def, List.append_assoc]

theorem stands_plain (hcontrol : ¬ b < 0x20) (hquote : b ≠ Ascii.quote)
    (hbackslash : b ≠ Ascii.backslash) :
    Stands [b] [b] where
  split_append := split_of_plain hquote hbackslash
  run_eq _ _ := rfl
  exists_pieces := ⟨[.byte b], pieces_of_plain hcontrol hbackslash, assemble_byte b⟩

/-- A short escape and the byte that it stands for are ASCII. -/
theorem le_of_shortEscape? {e : UInt8} (h : shortEscape? e = some b) : e ≤ 0x7F ∧ b ≤ 0x7F := by
  unfold shortEscape? at h
  split_ifs at h with hself
  · cases h
    rcases hself with rfl | rfl | rfl <;> decide
  all_goals
    subst_vars
    cases h
    decide

/-- A byte with a short escape stands behind a backslash. -/
theorem stands_short {e : UInt8} (hshort : shortEscape? e = some b) :
    Stands [Ascii.backslash, e] [b] where
  split_append := split_escaped e
  run_eq owed howed := by
    obtain ⟨he, hb⟩ := le_of_shortEscape? hshort
    rw [Utf8.run_of_ascii_cons howed (by simpa using ⟨by decide, he⟩),
      Utf8.run_of_ascii_cons howed (by simpa using hb)]
  exists_pieces := by
    have he : e ≠ Ascii.lowerU := by
      rintro rfl
      have hnone : shortEscape? Ascii.lowerU = none := rfl
      cases hnone.symm.trans hshort
    exact ⟨[.byte b], pieces_short he hshort, assemble_byte b⟩

theorem hexDigit_is_plain : ∀ n < 16,
    hexDigit n ≠ Ascii.quote ∧ hexDigit n ≠ Ascii.backslash ∧ hexDigit n ≤ 0x7F := by
  decide

theorem unit?_hexDigit :
    ∀ n < 0x20, unit? Ascii.zero Ascii.zero (hexDigit (n / 16)) (hexDigit (n % 16)) = some n := by
  decide

theorem encode_of_control : ∀ n < 0x20, Utf8.encode n = [UInt8.ofNat n] := by
  decide

theorem stands_control (hb : b < 0x20) :
    Stands (utf8 "\\u00" ++ [hexDigit (b.toNat / 16), hexDigit (b.toNat % 16)]) [b] := by
  have hn : b.toNat < 0x20 := UInt8.lt_iff_toNat_lt.1 hb
  have hunit := unit?_hexDigit b.toNat hn
  have hencode : Utf8.encode b.toNat = [b] := by rw [encode_of_control _ hn, UInt8.ofNat_toNat]
  obtain ⟨hquote₁, hbackslash₁, hascii₁⟩ := hexDigit_is_plain (b.toNat / 16) (by omega)
  obtain ⟨hquote₂, hbackslash₂, hascii₂⟩ := hexDigit_is_plain (b.toNat % 16) (by omega)
  generalize hexDigit (b.toNat / 16) = h₁ at *
  generalize hexDigit (b.toNat % 16) = h₂ at *
  refine ⟨fun tail => ?_, fun owed howed => ?_, [.unit b.toNat], pieces_unit hunit, fun rest => ?_⟩
  · show split (Ascii.backslash :: Ascii.lowerU :: Ascii.zero :: Ascii.zero :: h₁ :: h₂ :: tail) = _
    rw [split_escaped, split_of_plain (by decide) (by decide),
      split_of_plain (by decide) (by decide),
      split_of_plain hquote₁ hbackslash₁, split_of_plain hquote₂ hbackslash₂]
    cases split tail <;> rfl
  · have hascii : ∀ c ∈ utf8 "\\u00" ++ [h₁, h₂], c ≤ 0x7F := by
      rw [List.forall_mem_append]
      exact ⟨Utf8.ascii_of_all (by decide), by simpa using ⟨hascii₁, hascii₂⟩⟩
    have hbascii : ∀ c ∈ [b], c ≤ 0x7F := by
      simpa using UInt8.le_trans (UInt8.le_of_lt hb) (by decide)
    rw [Utf8.run_of_ascii_cons howed hbascii]
    exact Utf8.run_of_ascii_cons howed hascii
  · rw [List.singleton_append, assemble_unit (by omega), hencode]

/-- What is written for a byte stands for it. -/
theorem stands_escape (b : UInt8) : Stands (escape b) [b] := by
  unfold escape
  split_ifs with hquote hbackslash hbackspace hfeed hline hreturn htab hcontrol
  · exact stands_short (by rw [hquote]; rfl)
  · exact stands_short (by rw [hbackslash]; rfl)
  · exact stands_short (by rw [hbackspace]; rfl)
  · exact stands_short (by rw [hfeed]; rfl)
  · exact stands_short (by rw [hline]; rfl)
  · exact stands_short (by rw [hreturn]; rfl)
  · exact stands_short (by rw [htab]; rfl)
  · exact stands_control hcontrol
  · exact stands_plain hcontrol hquote hbackslash

theorem stands_flatMap_escape (s : Bytes) : Stands (s.flatMap escape) s := by
  induction s with
  | nil => exact stands_nil
  | cons b s ih => exact (stands_escape b).append ih

/-- What stands for a string of well-formed UTF-8 is read as it, up to the quote behind it. -/
theorem Stands.scan {text s : Bytes} (h : Stands text s) (hs : Utf8.isWellFormed s = true)
    (rest : Bytes) :
    Quoted.scan (text ++ Ascii.quote :: rest) = some (s, rest) := by
  have hsplit : split (text ++ Ascii.quote :: rest) = some (text, rest) := by
    rw [h.split_append, split_quote]
    simp
  have hwell : Utf8.isWellFormed text = true := by
    rw [Utf8.isWellFormed, h.run_eq [] Utf8.continues_nil]
    exact hs
  have hdecode : decode text = some s := by
    obtain ⟨list, hpieces, hassemble⟩ := h.exists_pieces
    have hlist : pieces text = some list := by simpa [pieces] using hpieces []
    have hs : assemble list = some s := by simpa [assemble] using hassemble []
    rw [decode, if_pos hwell, hlist, Option.bind_some, hs]
  rw [Quoted.scan, hsplit]
  show (decode text).map _ = _
  rw [hdecode]
  rfl

theorem scan_write {s : Bytes} (hs : Utf8.isWellFormed s = true) (rest : Bytes) :
    scan (s.flatMap escape ++ Ascii.quote :: rest) = some (s, rest) :=
  (stands_flatMap_escape s).scan hs rest

/-! ### Reading -/

/-- The check of UTF-8 on pieces: a unit stands between characters. -/
def runPieces : List Utf8.ByteRange → List Piece → Option (List Utf8.ByteRange)
  | owed, [] => some owed
  | owed, .byte b :: rest => (Utf8.step owed b).bind (runPieces · rest)
  | owed, .unit _ :: rest => if owed = [] then runPieces [] rest else none

/-- What pieces are put together to is checked as they are. -/
theorem run_of_assemble {list : List Piece} {s : Bytes} {owed final : List Utf8.ByteRange}
    (h : assemble list = some s) (hrun : runPieces owed list = some final) :
    Utf8.run owed s = some final := by
  fun_induction assemble list generalizing owed s with
  | case1 =>
    cases h
    exact hrun
  | case2 b rest ih =>
    obtain ⟨tail, htail, rfl⟩ := Option.map_eq_some_iff.1 h
    obtain ⟨next, hstep, hrest⟩ := Option.bind_eq_some_iff.1 hrun
    rw [Utf8.run_cons, hstep]
    exact ih htail hrest
  -- a pair of units stands for one character, and so does any other unit
  | case3 n _ m rest _ ih =>
    rw [runPieces, runPieces, if_pos rfl] at hrun
    split_ifs at hrun with howed
    obtain ⟨tail, htail, rfl⟩ := Option.map_eq_some_iff.1 h
    rw [howed, Utf8.run_append, Utf8.run_encode]
    exact ih htail hrun
  | case4 => cases h
  | case5 => cases h
  | case6 => cases h
  | case7 n rest _ _ ih =>
    rw [runPieces] at hrun
    split_ifs at hrun with howed
    obtain ⟨tail, htail, rfl⟩ := Option.map_eq_some_iff.1 h
    rw [howed, Utf8.run_append, Utf8.run_encode]
    exact ih htail hrun

theorem le_of_hexValue? {n : Nat} (h : hexValue? b = some n) : b ≤ 0x7F := by
  unfold hexValue? at h
  split_ifs at h with hdigit hlower hupper
  · simp only [Ascii.isDigit, Bool.and_eq_true, decide_eq_true_eq] at hdigit
    exact UInt8.le_trans hdigit.2 (by decide)
  · exact UInt8.le_trans hlower.2 (by decide)
  · exact UInt8.le_trans hupper.2 (by decide)

theorem le_of_unit? {h₁ h₂ h₃ h₄ : UInt8} {n : Nat} (h : unit? h₁ h₂ h₃ h₄ = some n) :
    ∀ c ∈ [h₁, h₂, h₃, h₄], c ≤ 0x7F := by
  simp only [unit?, Option.bind_eq_bind, Option.bind_eq_some_iff] at h
  obtain ⟨n₁, hn₁, n₂, hn₂, n₃, hn₃, n₄, hn₄, -⟩ := h
  simpa using ⟨le_of_hexValue? hn₁, le_of_hexValue? hn₂, le_of_hexValue? hn₃, le_of_hexValue? hn₄⟩

/-- The pieces of a text are checked as it is: an escape stands between characters, since a
backslash does. -/
theorem runPieces_of_pieces {body : Bytes} {list : List Piece} {owed final : List Utf8.ByteRange}
    (howed : Continues owed) (h : pieces body = some list)
    (hrun : Utf8.run owed body = some final) :
    runPieces owed list = some final := by
  fun_induction pieces body generalizing owed list with
  | case1 =>
    cases h
    exact hrun
  | case2 => cases h
  | case3 => cases h
  | case4 h₁ h₂ h₃ h₄ rest _ ih =>
    obtain ⟨n, hunit, h⟩ := Option.bind_eq_some_iff.1 h
    obtain ⟨tail, htail, ⟨⟩⟩ := Option.bind_eq_some_iff.1 h
    have hascii : ∀ c ∈ [Ascii.backslash, Ascii.lowerU] ++ [h₁, h₂, h₃, h₄], c ≤ 0x7F := by
      rw [List.forall_mem_append]
      exact ⟨Utf8.ascii_of_all (by decide), le_of_unit? hunit⟩
    obtain ⟨rfl, hrest⟩ := Utf8.run_of_ascii_append howed hascii hrun
    rw [runPieces, if_pos rfl]
    exact ih Utf8.continues_nil htail hrest
  | case5 => cases h
  | case6 e rest _ _ ih =>
    obtain ⟨b, hshort, h⟩ := Option.bind_eq_some_iff.1 h
    obtain ⟨tail, htail, ⟨⟩⟩ := Option.bind_eq_some_iff.1 h
    obtain ⟨he, hb⟩ := le_of_shortEscape? hshort
    have hascii : ∀ c ∈ [Ascii.backslash, e], c ≤ 0x7F := by simpa using ⟨by decide, he⟩
    obtain ⟨rfl, hrest⟩ := Utf8.run_of_ascii_append howed hascii hrun
    rw [runPieces, Utf8.step_of_ascii hb]
    exact ih Utf8.continues_nil htail hrest
  | case7 b rest _ _ ih =>
    obtain ⟨tail, htail, ⟨⟩⟩ := Option.bind_eq_some_iff.1 h
    obtain ⟨next, hstep, hrest⟩ := Option.bind_eq_some_iff.1 hrun
    rw [runPieces, hstep]
    exact ih (howed.step hstep) htail hrest

theorem isWellFormed_of_decode {body s : Bytes} (h : decode body = some s) :
    Utf8.isWellFormed s = true := by
  unfold decode at h
  split_ifs at h with hbody
  obtain ⟨list, hpieces, hassemble⟩ := Option.bind_eq_some_iff.1 h
  have hrun := runPieces_of_pieces Utf8.continues_nil hpieces (beq_iff_eq.1 hbody)
  exact beq_iff_eq.2 (run_of_assemble hassemble hrun)

theorem isWellFormed_of_scan {text s rest : Bytes} (h : scan text = some (s, rest)) :
    Utf8.isWellFormed s = true := by
  obtain ⟨⟨body, after⟩, -, hdecode⟩ := Option.bind_eq_some_iff.1 h
  obtain ⟨decoded, hdecoded, ⟨⟩⟩ := Option.map_eq_some_iff.1 hdecode
  exact isWellFormed_of_decode hdecoded

end FieldRules.Quoted

import FieldRules.Json.Reader
import FieldRules.Proofs.Json.NumberToken
import FieldRules.Proofs.Sequence
import Mathlib.Order.Basic

/-!
# Reading without fuel

The fuel of the reader only bounds the recursion: it never runs out, and does not decide what is
read.

* `length_lt_of_fuel`: what is left after a value, after items or after members is shorter.
* `readValue_of_le` and its companions: any fuel beyond twice the length of the text reads the same.
* `valueAt`, `itemsAt` and `membersAt`: reading with enough fuel.
-/

namespace FieldRules.Json

variable {s rest : Bytes}

/-! ### What is left -/

theorem length_skipBlanks_le (s : Bytes) : (skipBlanks s).length ≤ s.length :=
  List.length_dropWhile_le ..

theorem length_lt_of_skipBlanks {b : UInt8} (h : skipBlanks s = b :: rest) :
    rest.length < s.length := by
  have hle := length_skipBlanks_le s
  rw [h, List.length_cons] at hle
  exact hle

theorem length_lt_of_readWord {word : Bytes} (hword : word ≠ []) {value found : Json}
    (h : readWord word value s = .ok (found, rest)) : rest.length < s.length := by
  unfold readWord at h
  split at h
  · next after hafter =>
    cases h
    rw [Bytes.dropPrefix?_eq_some_iff.1 hafter, List.length_append]
    have := List.length_pos_iff.2 hword
    omega
  · cases h

theorem length_lt_of_readNumber {value : Json} (h : readNumber s = .ok (value, rest)) :
    rest.length < s.length := by
  unfold readNumber at h
  split at h
  · cases h
  · next token after hscan =>
    split at h
    · cases h
      obtain ⟨b, tail, htext, -⟩ := (NumberToken.wellFormed_of_scan hscan).exists_starts
      rw [← NumberToken.scan_text hscan, htext, List.length_append, List.length_cons]
      omega
    · cases h

theorem length_lt_of_split {body : Bytes} (h : Quoted.split s = some (body, rest)) :
    rest.length < s.length := by
  fun_induction Quoted.split s generalizing body with
  | case1 => cases h
  | case2 =>
    cases h
    simp
  | case3 => cases h
  | case4 _ _ _ ih =>
    obtain ⟨⟨_, _⟩, hsplit, heq⟩ := Option.map_eq_some_iff.1 h
    cases heq
    have := ih hsplit
    simp only [List.length_cons]
    omega
  | case5 _ _ _ _ ih =>
    obtain ⟨⟨_, _⟩, hsplit, heq⟩ := Option.map_eq_some_iff.1 h
    cases heq
    have := ih hsplit
    simp only [List.length_cons]
    omega

theorem length_lt_of_readString {text : Bytes} (h : readString s = .ok (text, rest)) :
    rest.length < s.length := by
  unfold readString at h
  split at h
  · next found hfound =>
    cases h
    obtain ⟨⟨body, after⟩, hsplit, hdecode⟩ := Option.bind_eq_some_iff.1 hfound
    obtain ⟨_, -, heq⟩ := Option.map_eq_some_iff.1 hdecode
    cases heq
    exact length_lt_of_split hsplit
  · cases h

theorem length_lt_of_readKey {key : Bytes} (h : readKey s = .ok (key, rest)) :
    rest.length < s.length := by
  unfold readKey at h
  split at h
  · cases h
  · next hs =>
    split_ifs at h
    obtain ⟨⟨text, after⟩, hstring, hcolon⟩ := bind_eq_ok_iff.1 h
    dsimp only at hcolon
    split at hcolon
    · cases hcolon
    · next hafter =>
      split_ifs at hcolon
      cases hcolon
      have h₁ := length_lt_of_skipBlanks hs
      have h₂ := length_lt_of_readString hstring
      have h₃ := length_lt_of_skipBlanks hafter
      omega

theorem length_lt_of_readSeparator {close : UInt8} {more : Bool}
    (h : readSeparator close s = .ok (more, rest)) :
    rest.length < s.length := by
  unfold readSeparator at h
  split at h
  · cases h
  · next hs =>
    split_ifs at h <;> cases h <;> exact length_lt_of_skipBlanks hs

/-! ### The shapes of a value -/

/-- Holds of a text that opens an array or an object, not empty, with the given rest. -/
def Opens (opening closing : UInt8) (s rest : Bytes) : Prop :=
  skipBlanks s = opening :: rest ∧ ∃ c after, skipBlanks rest = c :: after ∧ c ≠ closing

theorem Opens.length_lt {opening closing : UInt8} (h : Opens opening closing s rest) :
    rest.length < s.length :=
  length_lt_of_skipBlanks h.1

/-- Holds of a text that begins with a number token for which the nearest value is an infinity. -/
def NumberOverflows (s token : Bytes) : Prop :=
  ∃ number after, NumberToken.scan (skipBlanks s) = some (number, after) ∧
    number.rounded.isFinite = false ∧
    number.text = token

/-- Holds of what is read from a text at once, whatever the fuel. -/
structure ReadsAtOnce (s : Bytes) (result : Except ReadError (Json × Bytes)) : Prop where
  readValue_succ : ∀ fuel, readValue (fuel + 1) s = result
  length_lt : ∀ value rest, result = .ok (value, rest) → rest.length < s.length
  overflow : ∀ token, result = .error (.outOfRange token) ↔ NumberOverflows s token

theorem not_numberOverflows (hs : ∀ b ∈ (skipBlanks s).head?, ¬ NumberToken.Starts b)
    (token : Bytes) :
    ¬ NumberOverflows s token := by
  rintro ⟨number, after, hscan, -, -⟩
  obtain ⟨b, tail, htext, hb⟩ := (NumberToken.wellFormed_of_scan hscan).exists_starts
  refine hs b ?_ hb
  rw [← NumberToken.scan_text hscan, htext]
  rfl

/-- What begins with some other byte than a number is read at once if it is read so and no number in
it overflows. -/
theorem readsAtOnce_of_not_starts {result : Except ReadError (Json × Bytes)}
    (hs : ∀ b ∈ (skipBlanks s).head?, ¬ NumberToken.Starts b)
    (hread : ∀ fuel, readValue (fuel + 1) s = result)
    (hlength : ∀ value rest, result = .ok (value, rest) → rest.length < s.length)
    (hresult : ∀ token, result ≠ .error (.outOfRange token)) : ReadsAtOnce s result where
  readValue_succ := hread
  length_lt := hlength
  overflow := fun token => ⟨fun h => absurd h (hresult token), fun h =>
    absurd h (not_numberOverflows hs token)⟩

theorem readNumber_eq_outOfRange_iff {token : Bytes} (hs : skipBlanks s = rest) :
    readNumber rest = .error (.outOfRange token) ↔ NumberOverflows s token := by
  unfold readNumber NumberOverflows
  rw [hs]
  cases NumberToken.scan rest with
  | none => simp
  | some found =>
    obtain ⟨number, after⟩ := found
    have hnone := number.value_eq_none_iff
    cases hvalue : number.value <;> simp_all

theorem readWord_ne_outOfRange (word : Bytes) (value : Json) (s token : Bytes) :
    readWord word value s ≠ .error (.outOfRange token) := by
  unfold readWord
  split <;> simp

theorem readString_ne_outOfRange (s token : Bytes) : readString s ≠ .error (.outOfRange token) := by
  unfold readString
  split <;> simp

/-- What begins with a byte begins with no number, if no number begins with that byte. -/
theorem not_starts_head {b : UInt8} (hs : skipBlanks s = b :: rest) (hb : ¬ NumberToken.Starts b) :
    ∀ c ∈ (skipBlanks s).head?, ¬ NumberToken.Starts c := by
  rintro c hc
  rw [hs] at hc
  cases hc
  exact hb

/-- An array or an object that is opened is closed at once, or has something in it. -/
theorem readsAtOnce_or_opens {opening closing : UInt8} {empty : Json}
    {full : Nat → Except ReadError (Json × Bytes)} (hs : skipBlanks s = opening :: rest)
    (hopening : ¬ NumberToken.Starts opening)
    (hread : ∀ fuel, readValue (fuel + 1) s =
      match skipBlanks rest with
      | [] => .error .malformed
      | c :: after => if c = closing then .ok (empty, after) else full fuel) :
    (∃ result, ReadsAtOnce s result) ∨
      (Opens opening closing s rest ∧ ∀ fuel, readValue (fuel + 1) s = full fuel) := by
  have hfirst := not_starts_head hs hopening
  cases hrest : skipBlanks rest with
  | nil =>
    rw [hrest] at hread
    exact Or.inl ⟨.error .malformed, readsAtOnce_of_not_starts hfirst hread (by simp) (by simp)⟩
  | cons c after =>
    rw [hrest] at hread
    by_cases hc : c = closing
    · refine Or.inl ⟨.ok (empty, after), readsAtOnce_of_not_starts hfirst (fun fuel =>
        ?_) ?_ (by simp)⟩
      · exact (hread fuel).trans (if_pos hc)
      · rintro value rest' ⟨⟩
        exact (length_lt_of_skipBlanks hrest).trans (length_lt_of_skipBlanks hs)
    · exact Or.inr ⟨⟨hs, c, after, hrest, hc⟩, fun fuel => (hread fuel).trans (if_neg hc)⟩

theorem readsAtOnce_string (hs : skipBlanks s = Ascii.quote :: rest) :
    ReadsAtOnce s (readString rest >>= fun found => .ok (.string found.1, found.2)) := by
  refine readsAtOnce_of_not_starts (not_starts_head hs (by decide)) ?_ ?_ ?_
  · intro fuel
    rw [readValue, hs]
    rfl
  · intro value after h
    obtain ⟨⟨text, _⟩, hstring, ⟨⟩⟩ := bind_eq_ok_iff.1 h
    exact (length_lt_of_readString hstring).trans (length_lt_of_skipBlanks hs)
  · intro token h
    rcases bind_eq_error_iff.1 h with hstring | ⟨_, -, ⟨⟩⟩
    exact readString_ne_outOfRange rest token hstring

theorem readsAtOnce_word (word : Bytes) (value : Json) {b : UInt8} (hs : skipBlanks s = b :: rest)
    (hword : word ≠ []) (hb : ¬ NumberToken.Starts b)
    (hread : ∀ fuel, readValue (fuel + 1) s = readWord word value (b :: rest)) :
    ReadsAtOnce s (readWord word value (b :: rest)) := by
  refine readsAtOnce_of_not_starts (not_starts_head hs hb) hread ?_
    (readWord_ne_outOfRange word value _)
  intro found after h
  exact (length_lt_of_readWord hword h).trans_le (hs ▸ length_skipBlanks_le s)

theorem readsAtOnce_number {number : Bytes} (hs : skipBlanks s = number)
    (hread : ∀ fuel, readValue (fuel + 1) s = readNumber number) :
    ReadsAtOnce s (readNumber number) where
  readValue_succ := hread
  length_lt := fun _ _ h => (length_lt_of_readNumber h).trans_le (hs ▸ length_skipBlanks_le s)
  overflow := fun _ => readNumber_eq_outOfRange_iff hs

/-- What opens neither a string nor an array nor an object is read at once. -/
theorem exists_readsAtOnce {b : UInt8} (hs : skipBlanks s = b :: rest)
    (hquote : ¬ b = Ascii.quote) (hbracket : ¬ b = Ascii.openBracket)
    (hbrace : ¬ b = Ascii.openBrace) : ∃ result, ReadsAtOnce s result := by
  have hread : ∀ fuel, readValue (fuel + 1) s =
      if b = 0x74 then readWord (utf8 "true") (.bool true) (b :: rest)
      else if b = 0x66 then readWord (utf8 "false") (.bool false) (b :: rest)
      else if b = 0x6E then readWord (utf8 "null") .null (b :: rest)
      else readNumber (b :: rest) := by
    intro fuel
    rw [readValue, hs]
    simp only [if_neg hquote, if_neg hbracket, if_neg hbrace]
  by_cases htrue : b = 0x74
  · refine ⟨_, readsAtOnce_word (utf8 "true") (.bool true) hs (by decide)
      (by rw [htrue]; decide) fun fuel => ?_⟩
    rw [hread, if_pos htrue]
  by_cases hfalse : b = 0x66
  · refine ⟨_, readsAtOnce_word (utf8 "false") (.bool false) hs (by decide)
      (by rw [hfalse]; decide) fun fuel => ?_⟩
    rw [hread, if_neg htrue, if_pos hfalse]
  by_cases hnull : b = 0x6E
  · refine ⟨_, readsAtOnce_word (utf8 "null") .null hs (by decide)
      (by rw [hnull]; decide) fun fuel => ?_⟩
    rw [hread, if_neg htrue, if_neg hfalse, if_pos hnull]
  · refine ⟨_, readsAtOnce_number hs fun fuel => ?_⟩
    rw [hread, if_neg htrue, if_neg hfalse, if_neg hnull]

/-- A value is read at once, or is an array or an object with something in it. -/
theorem readValue_cases (s : Bytes) :
    (∃ result, ReadsAtOnce s result) ∨
    (∃ rest, Opens Ascii.openBracket Ascii.closeBracket s rest ∧ ∀ fuel, readValue (fuel + 1) s =
      (readItems fuel rest).map fun (items, after) => (.array items, after)) ∨
    (∃ rest, Opens Ascii.openBrace Ascii.closeBrace s rest ∧ ∀ fuel, readValue (fuel + 1) s =
      (readMembers fuel rest).map fun (members, after) => (ofMembers members, after)) := by
  cases hs : skipBlanks s with
  | nil =>
    refine Or.inl ⟨.error .malformed,
      readsAtOnce_of_not_starts (by simp [hs]) ?_ (by simp) (by simp)⟩
    intro fuel
    rw [readValue, hs]
  | cons b rest =>
    by_cases hquote : b = Ascii.quote
    · subst hquote
      exact Or.inl ⟨_, readsAtOnce_string hs⟩
    by_cases hbracket : b = Ascii.openBracket
    · subst hbracket
      have hread : ∀ fuel, readValue (fuel + 1) s =
          match skipBlanks rest with
          | [] => .error .malformed
          | c :: after =>
            if c = Ascii.closeBracket then .ok (.array [], after)
            else (readItems fuel rest).map fun (items, after) => (.array items, after) := by
        intro fuel
        rw [readValue, hs]
        exact (if_neg hquote).trans (if_pos rfl)
      rcases readsAtOnce_or_opens hs (by decide) hread with hleaf | hopens
      · exact Or.inl hleaf
      · exact Or.inr (Or.inl ⟨rest, hopens⟩)
    by_cases hbrace : b = Ascii.openBrace
    · subst hbrace
      have hread : ∀ fuel, readValue (fuel + 1) s =
          match skipBlanks rest with
          | [] => .error .malformed
          | c :: after =>
            if c = Ascii.closeBrace then .ok (.object [], after)
            else (readMembers fuel rest).map fun (members, after) =>
              (ofMembers members, after) := by
        intro fuel
        rw [readValue, hs]
        exact (if_neg hquote).trans ((if_neg hbracket).trans (if_pos rfl))
      rcases readsAtOnce_or_opens hs (by decide) hread with hleaf | hopens
      · exact Or.inl hleaf
      · exact Or.inr (Or.inr ⟨rest, hopens⟩)
    exact Or.inl (exists_readsAtOnce hs hquote hbracket hbrace)

/-! ### Progress -/

/-- What is left after a value, after items or after members is shorter. -/
theorem length_lt_of_fuel (fuel : Nat) :
    (∀ s value rest, readValue fuel s = .ok (value, rest) → rest.length < s.length) ∧
    (∀ s items rest, readItems fuel s = .ok (items, rest) → rest.length < s.length) ∧
    (∀ s members rest, readMembers fuel s = .ok (members, rest) → rest.length < s.length) := by
  -- all three at once, since each of them reads another one with one step less
  induction fuel with
  | zero =>
    refine ⟨?_, ?_, ?_⟩ <;> intro s found rest h
    · rw [readValue] at h; cases h
    · rw [readItems] at h; cases h
    · rw [readMembers] at h; cases h
  | succ fuel ih =>
    obtain ⟨ihvalue, ihitems, ihmembers⟩ := ih
    refine ⟨?_, ?_, ?_⟩
    · intro s value rest h
      rcases readValue_cases s with ⟨result, hresult⟩ | ⟨after, hopens, hread⟩ |
          ⟨after, hopens, hread⟩
      · rw [hresult.readValue_succ] at h
        exact hresult.length_lt value rest h
      · rw [hread] at h
        obtain ⟨⟨items, _⟩, hitems, ⟨⟩⟩ := map_eq_ok_iff.1 h
        exact (ihitems _ _ _ hitems).trans hopens.length_lt
      · rw [hread] at h
        obtain ⟨⟨members, _⟩, hmembers, ⟨⟩⟩ := map_eq_ok_iff.1 h
        exact (ihmembers _ _ _ hmembers).trans hopens.length_lt
    · intro s items rest h
      rw [readItems] at h
      obtain ⟨⟨item, afterItem⟩, hitem, h⟩ := bind_eq_ok_iff.1 h
      obtain ⟨⟨more, afterSeparator⟩, hseparator, h⟩ := bind_eq_ok_iff.1 h
      have hlt := (length_lt_of_readSeparator hseparator).trans (ihvalue _ _ _ hitem)
      cases more with
      | false =>
        cases h
        exact hlt
      | true =>
        obtain ⟨⟨others, _⟩, hothers, ⟨⟩⟩ := bind_eq_ok_iff.1 h
        exact (ihitems _ _ _ hothers).trans hlt
    · intro s members rest h
      rw [readMembers] at h
      obtain ⟨⟨key, afterKey⟩, hkey, h⟩ := bind_eq_ok_iff.1 h
      obtain ⟨⟨value, afterValue⟩, hvalue, h⟩ := bind_eq_ok_iff.1 h
      obtain ⟨⟨more, afterSeparator⟩, hseparator, h⟩ := bind_eq_ok_iff.1 h
      have hlt :=
        ((length_lt_of_readSeparator hseparator).trans (ihvalue _ _ _ hvalue)).trans
        (length_lt_of_readKey hkey)
      cases more with
      | false =>
        cases h
        exact hlt
      | true =>
        obtain ⟨⟨others, _⟩, hothers, ⟨⟩⟩ := bind_eq_ok_iff.1 h
        exact (ihmembers _ _ _ hothers).trans hlt

/-! ### Enough fuel -/

/-- Beyond twice the length of the text more fuel changes nothing. Items need one step more than a
value, since they begin with a value at the same place. -/
theorem succ_eq_of_fuel (fuel : Nat) :
    (∀ s : Bytes, 2 * s.length + 1 ≤ fuel → readValue (fuel + 1) s = readValue fuel s) ∧
    (∀ s : Bytes, 2 * s.length + 2 ≤ fuel → readItems (fuel + 1) s = readItems fuel s) ∧
    (∀ s : Bytes, 2 * s.length + 2 ≤ fuel → readMembers (fuel + 1) s = readMembers fuel s) := by
  induction fuel with
  | zero => refine ⟨?_, ?_, ?_⟩ <;> intro s hfuel <;> omega
  | succ fuel ih =>
    obtain ⟨ihvalue, ihitems, ihmembers⟩ := ih
    refine ⟨?_, ?_, ?_⟩
    · intro s hfuel
      rcases readValue_cases s with ⟨result, hresult⟩ | ⟨after, hopens, hread⟩ |
          ⟨after, hopens, hread⟩
      · rw [hresult.readValue_succ, hresult.readValue_succ]
      · have := hopens.length_lt
        rw [hread, hread, ihitems after (by omega)]
      · have := hopens.length_lt
        rw [hread, hread, ihmembers after (by omega)]
    · intro s hfuel
      rw [readItems, readItems, ihvalue s (by omega)]
      refine bind_congr_of_ok fun (item, afterItem) hitem => ?_
      refine bind_congr_of_ok fun (more, afterSeparator) hseparator => ?_
      have := length_lt_of_readSeparator hseparator
      have := (length_lt_of_fuel fuel).1 s item afterItem hitem
      dsimp only
      rw [ihitems afterSeparator (by omega)]
    · intro s hfuel
      rw [readMembers, readMembers]
      refine bind_congr_of_ok fun (key, afterKey) hkey => ?_
      have := length_lt_of_readKey hkey
      dsimp only
      rw [ihvalue afterKey (by omega)]
      refine bind_congr_of_ok fun (value, afterValue) hvalue => ?_
      refine bind_congr_of_ok fun (more, afterSeparator) hseparator => ?_
      have : afterSeparator.length < afterValue.length := length_lt_of_readSeparator hseparator
      have := (length_lt_of_fuel fuel).1 afterKey value afterValue hvalue
      dsimp only
      rw [ihmembers afterSeparator (by omega)]

/-- A value as it is read with enough fuel. -/
def valueAt (s : Bytes) : Except ReadError (Json × Bytes) :=
  readValue (2 * s.length + 2) s

/-- Items as they are read with enough fuel. -/
def itemsAt (s : Bytes) : Except ReadError (List Json × Bytes) :=
  readItems (2 * s.length + 2) s

/-- Members as they are read with enough fuel. -/
def membersAt (s : Bytes) : Except ReadError (List (Bytes × Json) × Bytes) :=
  readMembers (2 * s.length + 2) s

/-- A function that more fuel does not change beyond a bound does not change beyond it at all. -/
theorem eq_of_succ_eq {α : Type} {read : Nat → α} {bound : Nat}
    (hsucc : ∀ fuel, bound ≤ fuel → read (fuel + 1) = read fuel) {fuel other : Nat}
    (hfuel : bound ≤ fuel) (hother : bound ≤ other) : read fuel = read other := by
  have hbound : ∀ fuel, bound ≤ fuel → read fuel = read bound := by
    intro fuel hle
    induction fuel, hle using Nat.le_induction with
    | base => rfl
    | succ fuel hle ih => rw [hsucc fuel hle, ih]
  rw [hbound fuel hfuel, hbound other hother]

theorem readValue_of_le {fuel : Nat} (hfuel : 2 * s.length + 1 ≤ fuel) :
    readValue fuel s = valueAt s :=
  @eq_of_succ_eq _ (readValue · s) _ (fun fuel =>
    (succ_eq_of_fuel fuel).1 s) _ _ hfuel (Nat.le_succ _)

theorem readItems_of_le {fuel : Nat} (hfuel : 2 * s.length + 2 ≤ fuel) :
    readItems fuel s = itemsAt s :=
  @eq_of_succ_eq _ (readItems · s) _ (fun fuel =>
    (succ_eq_of_fuel fuel).2.1 s) _ _ hfuel (Nat.le_refl _)

theorem readMembers_of_le {fuel : Nat} (hfuel : 2 * s.length + 2 ≤ fuel) :
    readMembers fuel s = membersAt s :=
  @eq_of_succ_eq _ (readMembers · s) _ (fun fuel =>
    (succ_eq_of_fuel fuel).2.2 s) _ _ hfuel (Nat.le_refl _)

/-! ### Equations without fuel -/

/-- A value is read at once, or as an array of items or an object of members. -/
theorem valueAt_cases (s : Bytes) :
    (∃ result, ReadsAtOnce s result ∧ valueAt s = result) ∨
    (∃ rest, Opens Ascii.openBracket Ascii.closeBracket s rest ∧
      valueAt s = (itemsAt rest).map fun (items, after) => (.array items, after)) ∨
    (∃ rest, Opens Ascii.openBrace Ascii.closeBrace s rest ∧
      valueAt s = (membersAt rest).map fun (members, after) => (ofMembers members, after)) := by
  rcases readValue_cases s with ⟨result, hresult⟩ | ⟨after, hopens, hread⟩ | ⟨after, hopens, hread⟩
  · exact Or.inl ⟨result, hresult, hresult.readValue_succ _⟩
  · have := hopens.length_lt
    exact Or.inr (Or.inl ⟨after, hopens, by rw [valueAt, hread, readItems_of_le (by omega)]⟩)
  · have := hopens.length_lt
    exact Or.inr (Or.inr ⟨after, hopens, by rw [valueAt, hread, readMembers_of_le (by omega)]⟩)

theorem valueAt_of_opens_array (h : Opens Ascii.openBracket Ascii.closeBracket s rest) :
    valueAt s = (itemsAt rest).map fun (items, after) => (.array items, after) := by
  have := h.length_lt
  obtain ⟨hs, c, after, hrest, hc⟩ := h
  rw [valueAt, readValue, hs]
  simp only [if_neg (show ¬ Ascii.openBracket = Ascii.quote by decide), if_true, hrest, if_neg hc]
  rw [readItems_of_le (by omega)]
  rfl

theorem valueAt_of_opens_object (h : Opens Ascii.openBrace Ascii.closeBrace s rest) :
    valueAt s = (membersAt rest).map fun (members, after) => (ofMembers members, after) := by
  have := h.length_lt
  obtain ⟨hs, c, after, hrest, hc⟩ := h
  rw [valueAt, readValue, hs]
  simp only [if_neg (show ¬ Ascii.openBrace = Ascii.quote by decide),
    if_neg (show ¬ Ascii.openBrace = Ascii.openBracket by decide), if_true, hrest, if_neg hc]
  rw [readMembers_of_le (by omega)]
  rfl

theorem length_lt_of_valueAt {value : Json} (h : valueAt s = .ok (value, rest)) :
    rest.length < s.length :=
  (length_lt_of_fuel _).1 s value rest h

theorem itemsAt_eq (s : Bytes) : itemsAt s = do
    let (item, rest) ← valueAt s
    let (more, rest) ← readSeparator Ascii.closeBracket rest
    if more then do
      let (items, rest) ← itemsAt rest
      return (item :: items, rest)
    else return ([item], rest) := by
  rw [itemsAt, readItems, readValue_of_le (Nat.le_refl _)]
  refine bind_congr_of_ok fun (item, afterItem) hitem => ?_
  refine bind_congr_of_ok fun (more, afterSeparator) hseparator => ?_
  have := length_lt_of_readSeparator hseparator
  have := length_lt_of_valueAt hitem
  dsimp only
  rw [readItems_of_le (by omega)]

theorem membersAt_eq (s : Bytes) : membersAt s = do
    let (key, rest) ← readKey s
    let (value, rest) ← valueAt rest
    let (more, rest) ← readSeparator Ascii.closeBrace rest
    if more then do
      let (members, rest) ← membersAt rest
      return ((key, value) :: members, rest)
    else return ([(key, value)], rest) := by
  rw [membersAt, readMembers]
  refine bind_congr_of_ok fun (key, afterKey) hkey => ?_
  have := length_lt_of_readKey hkey
  dsimp only
  rw [readValue_of_le (by omega)]
  refine bind_congr_of_ok fun (value, afterValue) hvalue => ?_
  refine bind_congr_of_ok fun (more, afterSeparator) hseparator => ?_
  have : afterSeparator.length < afterValue.length := length_lt_of_readSeparator hseparator
  have := length_lt_of_valueAt hvalue
  dsimp only
  rw [readMembers_of_le (by omega)]

end FieldRules.Json

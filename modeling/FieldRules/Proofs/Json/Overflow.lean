import FieldRules.Proofs.Json.NumberText
import FieldRules.Proofs.Json.Reading

/-!
# Texts with a number out of range

* `Reaches`: the places in a text where the reader comes to expect a value, an item or a member
  without having met a fault.
* `Overflows`: a number beyond the range of binary64 stands at such a place.
* `read_eq_outOfRange_iff`: a text is refused for the range of a number exactly if it overflows.
-/

namespace FieldRules.Json

/-- What the reader expects at a place. -/
inductive Expected
  | value
  | item
  | member

/-- Holds of the places that the reader comes to, each given by the text from there on, and of what
it expects there. All that is in front of such a place has been read without a fault. -/
inductive Reaches (body : Bytes) : Expected → Bytes → Prop
  | start : Reaches body .value body
  | items {s rest : Bytes} : Reaches body .value s →
      Opens Ascii.openBracket Ascii.closeBracket s rest →
    Reaches body .item rest
  | itemValue {s : Bytes} : Reaches body .item s → Reaches body .value s
  | nextItem {s rest after : Bytes} {value : Json} : Reaches body .item s →
      valueAt s = .ok (value, rest) →
    readSeparator Ascii.closeBracket rest = .ok (true, after) → Reaches body .item after
  | members {s rest : Bytes} : Reaches body .value s →
      Opens Ascii.openBrace Ascii.closeBrace s rest →
    Reaches body .member rest
  | memberValue {s key rest : Bytes} : Reaches body .member s → readKey s = .ok (key, rest) →
      Reaches body .value rest
  | nextMember {s key rest after next : Bytes} {value : Json} : Reaches body .member s →
      readKey s = .ok (key, rest) →
    valueAt rest = .ok (value, after) → readSeparator Ascii.closeBrace after = .ok (true, next) →
    Reaches body .member next

/-- Holds of a text in which the reader comes to a number beyond the range of binary64. -/
def Overflows (text token : Bytes) : Prop :=
  ∃ s, Reaches (skipByteOrderMark text) .value s ∧ NumberOverflows s token

/-- Holds of a place where reading what is expected ends with a number out of range. -/
def FailsAt (token : Bytes) : Expected → Bytes → Prop
  | .value, s => valueAt s = .error (.outOfRange token)
  | .item, s => itemsAt s = .error (.outOfRange token)
  | .member, s => membersAt s = .error (.outOfRange token)

variable {body s rest token : Bytes}

/-! ### One step back -/

theorem readKey_ne_outOfRange (s token : Bytes) : readKey s ≠ .error (.outOfRange token) := by
  unfold readKey
  split
  · simp
  · split_ifs
    · intro h
      rcases bind_eq_error_iff.1 h with hstring | ⟨_, -, hcolon⟩
      · exact readString_ne_outOfRange _ token hstring
      · dsimp only at hcolon
        split at hcolon
        · cases hcolon
        · split_ifs at hcolon
          cases hcolon
    · simp

theorem readSeparator_ne_outOfRange (close : UInt8) (s token : Bytes) :
    readSeparator close s ≠ .error (.outOfRange token) := by
  unfold readSeparator
  split
  · simp
  · split_ifs <;> simp

theorem failsAt_item_iff : FailsAt token .item s ↔
    FailsAt token .value s ∨ ∃ value rest after, valueAt s = .ok (value, rest) ∧
      readSeparator Ascii.closeBracket rest = .ok (true, after) ∧ FailsAt token .item after := by
  show itemsAt s = _ ↔ valueAt s = _ ∨ _
  rw [itemsAt_eq, bind_eq_error_iff]
  constructor
  · rintro (hvalue | ⟨⟨value, rest⟩, hvalue, h⟩)
    · exact Or.inl hvalue
    · rcases bind_eq_error_iff.1 h with hseparator | ⟨⟨more, after⟩, hseparator, h⟩
      · exact absurd hseparator (readSeparator_ne_outOfRange _ _ _)
      · cases more with
        | false => cases h
        | true =>
          rcases bind_eq_error_iff.1 h with hitems | ⟨_, -, ⟨⟩⟩
          exact Or.inr ⟨value, rest, after, hvalue, hseparator, hitems⟩
  · rintro (hvalue | ⟨value, rest, after, hvalue, hseparator, hitems⟩)
    · exact Or.inl hvalue
    · refine Or.inr ⟨(value, rest), hvalue,
        bind_eq_error_iff.2 (Or.inr ⟨(true, after), hseparator, ?_⟩)⟩
      exact bind_eq_error_iff.2 (Or.inl hitems)

theorem failsAt_member_iff : FailsAt token .member s ↔
    ∃ key rest, readKey s = .ok (key, rest) ∧ (FailsAt token .value rest ∨
      ∃ value after next, valueAt rest = .ok (value, after) ∧
        readSeparator Ascii.closeBrace after = .ok (true, next) ∧ FailsAt token .member next) := by
  show membersAt s = _ ↔ _
  rw [membersAt_eq, bind_eq_error_iff]
  constructor
  · rintro (hkey | ⟨⟨key, rest⟩, hkey, h⟩)
    · exact absurd hkey (readKey_ne_outOfRange _ _)
    · refine ⟨key, rest, hkey, ?_⟩
      rcases bind_eq_error_iff.1 h with hvalue | ⟨⟨value, after⟩, hvalue, h⟩
      · exact Or.inl hvalue
      · rcases bind_eq_error_iff.1 h with hseparator | ⟨⟨more, next⟩, hseparator, h⟩
        · exact absurd hseparator (readSeparator_ne_outOfRange _ _ _)
        · cases more with
          | false => cases h
          | true =>
            rcases bind_eq_error_iff.1 h with hmembers | ⟨_, -, ⟨⟩⟩
            exact Or.inr ⟨value, after, next, hvalue, hseparator, hmembers⟩
  · rintro ⟨key, rest, hkey, hvalue | ⟨value, after, next, hvalue, hseparator, hmembers⟩⟩
    · exact Or.inr ⟨(key, rest), hkey, bind_eq_error_iff.2 (Or.inl hvalue)⟩
    · refine Or.inr ⟨(key, rest), hkey, bind_eq_error_iff.2 (Or.inr ⟨(value, after), hvalue, ?_⟩)⟩
      refine bind_eq_error_iff.2 (Or.inr ⟨(true, next), hseparator, ?_⟩)
      exact bind_eq_error_iff.2 (Or.inl hmembers)

/-- A value fails as a number, or as an array or an object with something in it. -/
theorem failsAt_value_iff : FailsAt token .value s ↔
    NumberOverflows s token ∨
    (∃ rest, Opens Ascii.openBracket Ascii.closeBracket s rest ∧ FailsAt token .item rest) ∨
    ∃ rest, Opens Ascii.openBrace Ascii.closeBrace s rest ∧ FailsAt token .member rest := by
  show valueAt s = _ ↔ _
  constructor
  · intro h
    rcases valueAt_cases s with ⟨result, hresult, hread⟩ | ⟨rest, hopens, hread⟩ |
        ⟨rest, hopens, hread⟩
    · exact Or.inl ((hresult.overflow token).1 (hread.symm.trans h))
    · exact Or.inr (Or.inl ⟨rest, hopens, map_eq_error_iff.1 (hread.symm.trans h)⟩)
    · exact Or.inr (Or.inr ⟨rest, hopens, map_eq_error_iff.1 (hread.symm.trans h)⟩)
  · rintro (hnumber | ⟨rest, hopens, hitems⟩ | ⟨rest, hopens, hmembers⟩)
    -- a number opens nothing, so that it is read at once
    · have hnot {opening closing : UInt8} (hopening : ¬ NumberToken.Starts opening) (rest : Bytes) :
          ¬ Opens opening closing s rest := by
        intro hopens
        refine not_numberOverflows ?_ token hnumber
        intro b hb
        rw [hopens.1] at hb
        cases hb
        exact hopening
      rcases valueAt_cases s with ⟨result, hresult, hread⟩ | ⟨rest, hopens, -⟩ | ⟨rest, hopens, -⟩
      · rw [hread, (hresult.overflow token).2 hnumber]
      · exact absurd hopens (hnot (by decide) rest)
      · exact absurd hopens (hnot (by decide) rest)
    · rw [valueAt_of_opens_array hopens]
      exact map_eq_error_iff.2 hitems
    · rw [valueAt_of_opens_object hopens]
      exact map_eq_error_iff.2 hmembers

/-! ### Places -/

/-- What fails at a place that the reader comes to makes the whole text fail. -/
theorem Reaches.failsAt {expected : Expected} (h : Reaches body expected s)
    (hfails : FailsAt token expected s) :
    FailsAt token .value body := by
  induction h with
  | start => exact hfails
  | items _ hopens ih => exact ih (failsAt_value_iff.2 (Or.inr (Or.inl ⟨_, hopens, hfails⟩)))
  | itemValue _ ih => exact ih (failsAt_item_iff.2 (Or.inl hfails))
  | nextItem _ hvalue hseparator ih =>
      exact ih (failsAt_item_iff.2 (Or.inr ⟨_, _, _, hvalue, hseparator, hfails⟩))
  | members _ hopens ih => exact ih (failsAt_value_iff.2 (Or.inr (Or.inr ⟨_, hopens, hfails⟩)))
  | memberValue _ hkey ih => exact ih (failsAt_member_iff.2 ⟨_, _, hkey, Or.inl hfails⟩)
  | nextMember _ hkey hvalue hseparator ih =>
    exact ih (failsAt_member_iff.2 ⟨_, _, hkey, Or.inr ⟨_, _, _, hvalue, hseparator, hfails⟩⟩)

/-- A failure at a place that the reader comes to is that of a number at a place that it comes to.
The induction is on the length of what is left; items begin with a value at their own place, so that
values come first. -/
theorem exists_numberOverflows (length : Nat) : ∀ s : Bytes, s.length < length →
    ∀ expected, Reaches body expected s → FailsAt token expected s →
      ∃ place, Reaches body .value place ∧ NumberOverflows place token := by
  induction length with
  | zero =>
    intro s hs
    omega
  | succ length ih =>
    intro s hs
    -- a value fails here, or further on in its items or members
    have hvalue (hreaches : Reaches body .value s) (hfails : FailsAt token .value s) :
        ∃ place, Reaches body .value place ∧ NumberOverflows place token := by
      rcases failsAt_value_iff.1 hfails with hnumber | ⟨rest, hopens, hitems⟩ |
          ⟨rest, hopens, hmembers⟩
      · exact ⟨s, hreaches, hnumber⟩
      · have := hopens.length_lt
        exact ih rest (by omega) .item (hreaches.items hopens) hitems
      · have := hopens.length_lt
        exact ih rest (by omega) .member (hreaches.members hopens) hmembers
    intro expected hreaches hfails
    cases expected with
    | value => exact hvalue hreaches hfails
    | item =>
      rcases failsAt_item_iff.1 hfails with hfirst | ⟨value, rest, after, hread, hseparator, hitems⟩
      · exact hvalue hreaches.itemValue hfirst
      · have := length_lt_of_valueAt hread
        have := length_lt_of_readSeparator hseparator
        exact ih after (by omega) .item (hreaches.nextItem hread hseparator) hitems
    | member =>
      obtain ⟨key, rest, hkey, hfirst | ⟨value, after, next, hread, hseparator, hmembers⟩⟩ :=
        failsAt_member_iff.1 hfails
      · have := length_lt_of_readKey hkey
        exact ih rest (by omega) .value (hreaches.memberValue hkey) hfirst
      · have := length_lt_of_readKey hkey
        have := length_lt_of_valueAt hread
        have := length_lt_of_readSeparator hseparator
        exact ih next (by omega) .member (hreaches.nextMember hkey hread hseparator) hmembers

/-- A text is refused for the range of a number exactly if the reader comes to such a number. -/
theorem read_eq_outOfRange_iff {text : Bytes} :
    read text = .error (.outOfRange token) ↔ Overflows text token := by
  have hread : read text = .error (.outOfRange token) ↔
      FailsAt token .value (skipByteOrderMark text) := by
    show _ ↔ valueAt (skipByteOrderMark text) = _
    constructor
    · intro h
      rcases bind_eq_error_iff.1 h with hvalue | ⟨⟨value, rest⟩, -, hend⟩
      · exact hvalue
      · dsimp only at hend
        split_ifs at hend <;> cases hend
    · intro h
      exact bind_eq_error_iff.2 (Or.inl h)
  rw [hread]
  constructor
  · intro hfails
    exact exists_numberOverflows _ _ (Nat.lt_succ_self _) .value .start hfails
  · rintro ⟨s, hreaches, hnumber⟩
    exact hreaches.failsAt (failsAt_value_iff.2 (Or.inl hnumber))

theorem read_token_of_overflow {token : NumberToken} (h : token.WellFormed)
    (hrounded : token.rounded.isFinite = false) :
    read token.text = .error (.outOfRange token.text) := by
  obtain ⟨b, rest, htext, hb⟩ := h.exists_starts
  have hscan := NumberToken.scan_eq_some_nil_iff.2 ⟨h, rfl⟩
  refine read_eq_outOfRange_iff.2 ⟨token.text, ?_, token, [], ?_, hrounded, rfl⟩
  · rw [htext, Begins.skipByteOrderMark (Or.inl hb), ← htext]
    exact .start
  · rw [htext, Begins.skipBlanks (Or.inl hb), ← htext, hscan]

example : read (utf8 "[0, 1e400 ?") = .error (.outOfRange (utf8 "1e400")) := by decide +kernel

example : read (utf8 "[0 ? 1e400") = .error .malformed := by decide +kernel

end FieldRules.Json

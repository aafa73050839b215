import FieldRules.Proofs.Json.Members
import FieldRules.Proofs.Json.QuotedText
import FieldRules.Proofs.Json.Reading
import FieldRules.Proofs.Json.Word

/-!
# Values that are read

What a text stands for is put together by the reader, and so not any value.

* `Json.Readable`: values as the reader puts them together, with arrays of a bounded length.
* `Json.ReadAs`, `readAs_of_readValue`: what the reader takes a value from, one step back.
* `readable_of_fuel`: what is read from any place of a text is readable.
* `readable_of_read`: what a text stands for is readable, with arrays not longer than the text.
-/

namespace FieldRules.Json

/-- Holds of the values that a reader puts together from at most `size` bytes: integers of 64 bits,
with or without a sign, finite numbers, strings and keys of well-formed UTF-8, and members in
order. -/
inductive Readable (size : Nat) : Json → Prop
  | null : Readable size .null
  | bool (b : Bool) : Readable size (.bool b)
  | integer {n : Int} (hlow : -2 ^ 63 ≤ n) (hhigh : n < 2 ^ 64) : Readable size (.integer n)
  | double (negative : Bool) (rank : Fin Binary64.rankCount) :
      Readable size (.double (.finite negative rank))
  | string {s : Bytes} (hs : Utf8.isWellFormed s = true) : Readable size (.string s)
  | array {items : List Json} (hlength : items.length ≤ size)
    (hitems : ∀ item ∈ items, Readable size item) : Readable size (.array items)
  | object {members : List (Bytes × Json)} (horder : InOrder members)
    (hkeys : ∀ member ∈ members, Utf8.isWellFormed member.1 = true)
    (hvalues : ∀ member ∈ members, Readable size member.2) : Readable size (.object members)

variable {size : Nat} {value : Json}

namespace Readable

theorem of_find? (h : value.Readable size) {key : Bytes} {found : Json}
    (hfound : value.find? key = some found) :
    found.Readable size := by
  cases h with
  | object _ _ hvalues =>
    obtain ⟨before, after, rfl, -⟩ := List.lookup_eq_some_iff.1 hfound
    exact hvalues (key, found) (by simp)
  | _ => cases hfound

theorem of_mem_elements (h : value.Readable size) {element : Json}
    (helement : element ∈ value.elements) :
    element.Readable size := by
  cases value with
  | array items =>
    cases h with
    | array _ hitems => exact hitems element helement
  | _ => rwa [List.mem_singleton.1 helement]

end Readable

/-! ### One step back -/

/-- What a value is put together from that the reader takes from a text `s` and that `rest` is left
behind. -/
inductive ReadAs (fuel : Nat) (s rest : Bytes) : Json → Prop
  | null : ReadAs fuel s rest .null
  | word {word : Bytes} {value : Json} (hword : Word word value)
    (hs : skipBlanks s = word ++ rest) : ReadAs fuel s rest value
  | string {text : Bytes} (htext : Utf8.isWellFormed text = true) :
      ReadAs fuel s rest (.string text)
  | emptyArray : ReadAs fuel s rest (.array [])
  | emptyObject : ReadAs fuel s rest (.object [])
  | array {items : List Json} {after : Bytes} (hlt : after.length < s.length)
    (hitems : readItems fuel after = .ok (items, rest)) : ReadAs fuel s rest (.array items)
  | object {members : List (Bytes × Json)} {after : Bytes} (hlt : after.length < s.length)
    (hmembers : readMembers fuel after = .ok (members, rest)) :
      ReadAs fuel s rest (ofMembers members)

theorem isWellFormed_of_readString {s text rest : Bytes} (h : readString s = .ok (text, rest)) :
    Utf8.isWellFormed text = true := by
  unfold readString at h
  split at h
  · next hscan =>
    cases h
    exact Quoted.isWellFormed_of_scan hscan
  · cases h

theorem isWellFormed_of_readKey {s key rest : Bytes} (h : readKey s = .ok (key, rest)) :
    Utf8.isWellFormed key = true := by
  unfold readKey at h
  split at h
  · cases h
  · split_ifs at h
    obtain ⟨⟨text, after⟩, hstring, hcolon⟩ := bind_eq_ok_iff.1 h
    dsimp only at hcolon
    split at hcolon
    · cases hcolon
    · split_ifs at hcolon
      cases hcolon
      exact isWellFormed_of_readString hstring

theorem readAs_of_readValue {fuel : Nat} {s rest : Bytes}
    (h : readValue (fuel + 1) s = .ok (value, rest)) :
    ReadAs fuel s rest value := by
  rw [readValue] at h
  split at h
  · cases h
  · next b after hs =>
    have hlt : after.length < s.length := length_lt_of_skipBlanks hs
    split_ifs at h
    · obtain ⟨⟨text, _⟩, hstring, ⟨⟩⟩ := bind_eq_ok_iff.1 h
      exact .string (isWellFormed_of_readString hstring)
    -- an array
    · split at h
      · cases h
      · split_ifs at h
        · cases h
          exact .emptyArray
        · obtain ⟨⟨items, _⟩, hitems, ⟨⟩⟩ := bind_eq_ok_iff.1 h
          exact .array hlt hitems
    -- an object
    · split at h
      · cases h
      · split_ifs at h
        · cases h
          exact .emptyObject
        · obtain ⟨⟨members, _⟩, hmembers, ⟨⟩⟩ := bind_eq_ok_iff.1 h
          exact .object hlt hmembers
    · obtain ⟨rfl, hword⟩ := readWord_eq_ok h
      exact .word .isTrue (hs.trans hword)
    · obtain ⟨rfl, hword⟩ := readWord_eq_ok h
      exact .word .isFalse (hs.trans hword)
    · obtain ⟨rfl, -⟩ := readWord_eq_ok h
      exact .null
    · obtain ⟨token, hwellFormed, hvalue, htext⟩ := exists_token_of_readNumber h
      exact .word (.number hwellFormed hvalue) (hs.trans htext)

/-! ### Reading -/

/-- The value of a number token is an integer of 64 bits or a finite number. -/
theorem readable_of_token {token : NumberToken} (h : token.value = some value) :
    value.Readable size := by
  have hkind : (∃ n, value = .integer n) ∨ ∃ x, value = .double x := by
    unfold NumberToken.value at h
    split_ifs at h <;> cases h
    · exact Or.inl ⟨_, rfl⟩
    · exact Or.inr ⟨_, rfl⟩
  rcases hkind with ⟨n, rfl⟩ | ⟨x, rfl⟩
  · obtain ⟨hlow, hhigh⟩ := token.range_of_value h
    exact .integer hlow hhigh
  · have hfinite := token.isFinite_of_value h
    cases x with
    | finite negative rank => exact .double negative rank
    | _ => cases hfinite

theorem Word.readable {word : Bytes} (h : Word word value) : value.Readable size := by
  cases h with
  | number _ hvalue => exact readable_of_token hvalue
  | isTrue => exact .bool true
  | isFalse => exact .bool false

theorem readable_ofMembers {members : List (Bytes × Json)}
    (h : ∀ member ∈ members, Utf8.isWellFormed member.1 = true ∧ member.2.Readable size) :
    (ofMembers members).Readable size := by
  obtain ⟨kept, hkept, horder, hmem⟩ := exists_ofMembers members
  rw [hkept]
  exact .object horder (fun member hmember => (h member (hmem member hmember)).1)
    fun member hmember => (h member (hmem member hmember)).2

/-- What is read is readable. Every item takes a byte at least, so that there are not more items
than bytes. -/
theorem readable_of_fuel (size fuel : Nat) :
    (∀ s value rest, s.length ≤ size → readValue fuel s = .ok (value, rest) → value.Readable size) ∧
    (∀ s items rest, s.length ≤ size → readItems fuel s = .ok (items, rest) →
      items.length + rest.length ≤ s.length ∧ ∀ item ∈ items, item.Readable size) ∧
    (∀ s members rest, s.length ≤ size → readMembers fuel s = .ok (members, rest) →
      ∀ member ∈ members, Utf8.isWellFormed member.1 = true ∧ member.2.Readable size) := by
  induction fuel with
  | zero =>
    refine ⟨?_, ?_, ?_⟩ <;> intro s found rest hsize h
    · rw [readValue] at h; cases h
    · rw [readItems] at h; cases h
    · rw [readMembers] at h; cases h
  | succ fuel ih =>
    obtain ⟨ihvalue, ihitems, ihmembers⟩ := ih
    refine ⟨?_, ?_, ?_⟩
    · intro s value rest hsize h
      cases readAs_of_readValue h with
      | null => exact .null
      | word hword => exact hword.readable
      | string htext => exact .string htext
      | emptyArray => exact .array (Nat.zero_le _) (by simp)
      | emptyObject => exact .object List.Pairwise.nil (by simp) (by simp)
      | array hlt hitems =>
        obtain ⟨hlength, hreadable⟩ := ihitems _ _ _ (by omega) hitems
        exact .array (by omega) hreadable
      | object hlt hmembers =>
        exact readable_ofMembers (ihmembers _ _ _ (by omega) hmembers)
    · intro s items rest hsize h
      rw [readItems] at h
      obtain ⟨⟨item, afterItem⟩, hitem, h⟩ := bind_eq_ok_iff.1 h
      obtain ⟨⟨more, afterSeparator⟩, hseparator, h⟩ := bind_eq_ok_iff.1 h
      have hreadable := ihvalue _ _ _ hsize hitem
      have hlt : afterItem.length < s.length := (length_lt_of_fuel fuel).1 _ _ _ hitem
      have := length_lt_of_readSeparator hseparator
      cases more with
      | false =>
        cases h
        refine ⟨by simp only [List.length_singleton]; omega, ?_⟩
        simpa using hreadable
      | true =>
        obtain ⟨⟨others, _⟩, hothers, ⟨⟩⟩ := bind_eq_ok_iff.1 h
        obtain ⟨hlength, hall⟩ := ihitems _ _ _ (by omega) hothers
        refine ⟨by simp only [List.length_cons]; omega, ?_⟩
        exact List.forall_mem_cons.2 ⟨hreadable, hall⟩
    · intro s members rest hsize h
      rw [readMembers] at h
      obtain ⟨⟨key, afterKey⟩, hkey, h⟩ := bind_eq_ok_iff.1 h
      obtain ⟨⟨value, afterValue⟩, hvalue, h⟩ := bind_eq_ok_iff.1 h
      obtain ⟨⟨more, afterSeparator⟩, hseparator, h⟩ := bind_eq_ok_iff.1 h
      have hkeylt := length_lt_of_readKey hkey
      have hvaluelt := (length_lt_of_fuel fuel).1 _ _ _ hvalue
      have hseparatorlt := length_lt_of_readSeparator hseparator
      have hfirst : Utf8.isWellFormed key = true ∧ value.Readable size :=
        ⟨isWellFormed_of_readKey hkey, ihvalue _ _ _ (by omega) hvalue⟩
      cases more with
      | false =>
        cases h
        simpa using hfirst
      | true =>
        obtain ⟨⟨others, _⟩, hothers, ⟨⟩⟩ := bind_eq_ok_iff.1 h
        exact List.forall_mem_cons.2 ⟨hfirst, ihmembers _ _ _ (by omega) hothers⟩

theorem length_skipByteOrderMark_le (text : Bytes) :
    (skipByteOrderMark text).length ≤ text.length := by
  unfold skipByteOrderMark
  cases hdrop : Bytes.dropPrefix? byteOrderMark text with
  | none => exact Nat.le_refl _
  | some rest =>
    rw [Bytes.dropPrefix?_eq_some_iff.1 hdrop, List.length_append]
    exact Nat.le_add_left ..

/-- What a text stands for is readable, with arrays not longer than the text. -/
theorem readable_of_read {text : Bytes} (h : read text = .ok value) :
    value.Readable text.length := by
  obtain ⟨⟨found, rest⟩, hfound, hend⟩ := bind_eq_ok_iff.1 h
  dsimp only at hend
  split_ifs at hend
  cases hend
  exact (readable_of_fuel _ _).1 _ _ _ (length_skipByteOrderMark_le text) hfound

end FieldRules.Json

import FieldRules.Json.Writer
import FieldRules.Proofs.Json.NumberText
import FieldRules.Proofs.Json.Readable

/-!
# Written values read back

The compact text of a value that is read is read as the value.

* `exists_begins_write`: the text of a value begins as texts of values do.
* `valueAt_string`, `itemsAt_write`, `membersAt_write`: the parts of a text, in front of any rest.
* `Readable.readsBack`: the text of a readable value, in front of a rest that cannot go on with a
  number.
* `read_write`: the text of a readable value alone.
-/

namespace FieldRules.Json

open NumberToken (Ends)

/-! ### First bytes -/

/-- The text of a value begins with a byte of a value. -/
theorem exists_begins_write [DoublePrinter] (value : Json) :
    ∃ b tail, value.write = b :: tail ∧ Begins b := by
  cases value with
  | null => exact ⟨0x6E, _, by rw [write]; rfl, by decide⟩
  | bool b =>
    cases b with
    | false => exact ⟨0x66, _, by rw [write]; rfl, by decide⟩
    | true => exact ⟨0x74, _, by rw [write]; rfl, by decide⟩
  | integer n =>
    obtain ⟨b, tail, htext, hb⟩ := (wellFormed_integerToken n).exists_starts
    exact ⟨b, tail, by rw [write, ← text_integerToken, htext], Or.inl hb⟩
  | double x =>
    rw [write]
    cases x with
    | finite negative rank =>
      obtain ⟨b, tail, htext, hb⟩ :=
        Layout.json.exists_starts_finite DoublePrinter.decimal negative rank
      exact ⟨b, tail, htext, Or.inl hb⟩
    | _ => exact ⟨0x6E, _, rfl, by decide⟩
  | string s => exact ⟨Ascii.quote, _, by rw [write]; rfl, by decide⟩
  | array items => exact ⟨Ascii.openBracket, _, by rw [write]; rfl, by decide⟩
  | object members => exact ⟨Ascii.openBrace, _, by rw [write]; rfl, by decide⟩

/-! ### Parts -/

variable {rest : Bytes}

theorem readString_write {s : Bytes} (hs : Utf8.isWellFormed s = true) (rest : Bytes) :
    readString (s.flatMap Quoted.escape ++ Ascii.quote :: rest) = .ok (s, rest) := by
  rw [readString, Quoted.scan_write hs]

theorem valueAt_string {s : Bytes} (hs : Utf8.isWellFormed s = true) (rest : Bytes) :
    valueAt (Quoted.write s ++ rest) = .ok (.string s, rest) := by
  have hwrite : Quoted.write s ++ rest =
      Ascii.quote :: (s.flatMap Quoted.escape ++ Ascii.quote :: rest) := by
    simp [Quoted.write]
  have hblanks : skipBlanks (Quoted.write s ++ rest) =
      Ascii.quote :: (s.flatMap Quoted.escape ++ Ascii.quote :: rest) := by
    rw [hwrite, Begins.skipBlanks (by decide)]
  rw [valueAt, (readsAtOnce_string hblanks).readValue_succ, readString_write hs]
  rfl

theorem readKey_write {key : Bytes} (hkey : Utf8.isWellFormed key = true) (rest : Bytes) :
    readKey (Quoted.write key ++ Ascii.colon :: rest) = .ok (key, rest) := by
  have hwrite : Quoted.write key ++ Ascii.colon :: rest =
      Ascii.quote :: (key.flatMap Quoted.escape ++ Ascii.quote :: Ascii.colon :: rest) := by
    simp [Quoted.write]
  rw [readKey, hwrite, Begins.skipBlanks (by decide)]
  show (readString (key.flatMap Quoted.escape ++ Ascii.quote :: Ascii.colon :: rest) >>= _) = _
  rw [readString_write hkey]
  rfl

/-! ### Items and members -/

theorem ends_comma (rest : Bytes) : Ends (Ascii.comma :: rest) :=
  Bytes.stops_cons.2 (by decide)

/-- Texts with commas between them and a closing bracket behind them: the first, a comma and the
others. -/
theorem join_cons_cons (first second : Bytes) (others : List Bytes) (close : UInt8) (rest : Bytes) :
    Bytes.joinWith [Ascii.comma] (first :: second :: others) ++ close :: rest =
      first ++ Ascii.comma ::
        (Bytes.joinWith [Ascii.comma] (second :: others) ++ close :: rest) := by
  simp

theorem itemsAt_last {s : Bytes} {item : Json}
    (hitem : valueAt s = .ok (item, Ascii.closeBracket :: rest)) :
    itemsAt s = .ok ([item], rest) := by
  rw [itemsAt_eq, hitem]
  rfl

theorem itemsAt_more {s after : Bytes} {item : Json} {items : List Json}
    (hitem : valueAt s = .ok (item, Ascii.comma :: after))
    (hitems : itemsAt after = .ok (items, rest)) :
    itemsAt s = .ok (item :: items, rest) := by
  rw [itemsAt_eq, hitem]
  show (itemsAt after >>= _) = _
  rw [hitems]
  rfl

theorem membersAt_last {s after key : Bytes} {value : Json} (hkey : readKey s = .ok (key, after))
    (hvalue : valueAt after = .ok (value, Ascii.closeBrace :: rest)) :
    membersAt s = .ok ([(key, value)], rest) := by
  rw [membersAt_eq, hkey]
  show (valueAt after >>= _) = _
  rw [hvalue]
  rfl

theorem membersAt_more {s after next key : Bytes} {value : Json} {members : List (Bytes × Json)}
    (hkey : readKey s = .ok (key, after))
    (hvalue : valueAt after = .ok (value, Ascii.comma :: next))
    (hmembers : membersAt next = .ok (members, rest)) :
    membersAt s = .ok ((key, value) :: members, rest) := by
  rw [membersAt_eq, hkey]
  show (valueAt after >>= _) = _
  rw [hvalue]
  show (membersAt next >>= _) = _
  rw [hmembers]
  rfl

/-- Holds of a value that is read from its text in front of any rest that cannot go on with a
number. -/
def ReadsBack [DoublePrinter] (value : Json) : Prop :=
  ∀ rest, Ends rest → valueAt (value.write ++ rest) = .ok (value, rest)

theorem itemsAt_write [DoublePrinter] {item : Json} {items : List Json}
    (h : ∀ other ∈ item :: items, other.ReadsBack) (rest : Bytes) :
    itemsAt (Bytes.joinWith [Ascii.comma] ((item :: items).map write) ++
      Ascii.closeBracket :: rest) =
      .ok (item :: items, rest) := by
  induction items generalizing item with
  | nil => exact itemsAt_last (h item (List.mem_cons_self ..) _ (Bytes.stops_cons.2 (by decide)))
  | cons next items ih =>
    rw [List.map_cons, List.map_cons, join_cons_cons]
    exact itemsAt_more (h item (List.mem_cons_self ..) _ (ends_comma _))
      (ih fun other hother => h other (List.mem_cons_of_mem _ hother))

/-- The text of a member. -/
def writeMember [DoublePrinter] (member : Bytes × Json) : Bytes :=
  Quoted.write member.1 ++ Ascii.colon :: member.2.write

theorem membersAt_write [DoublePrinter] {member : Bytes × Json} {members : List (Bytes × Json)}
    (h : ∀ other ∈ member :: members, Utf8.isWellFormed other.1 = true ∧ other.2.ReadsBack)
    (rest : Bytes) :
    membersAt (Bytes.joinWith [Ascii.comma] ((member :: members).map writeMember) ++
      Ascii.closeBrace :: rest) =
      .ok (member :: members, rest) := by
  have hsplit (member : Bytes × Json) (rest : Bytes) :
      writeMember member ++ rest = Quoted.write member.1 ++ Ascii.colon ::
        (member.2.write ++ rest) := by
    simp [writeMember]
  induction members generalizing member with
  | nil =>
    obtain ⟨hkey, hvalue⟩ := h member (List.mem_cons_self ..)
    rw [List.map_cons, List.map_nil, Bytes.joinWith_singleton, hsplit]
    exact membersAt_last (readKey_write hkey _) (hvalue _ (Bytes.stops_cons.2 (by decide)))
  | cons next members ih =>
    obtain ⟨hkey, hvalue⟩ := h member (List.mem_cons_self ..)
    rw [List.map_cons, List.map_cons, join_cons_cons, hsplit]
    exact membersAt_more (readKey_write hkey _) (hvalue _ (ends_comma _))
      (ih fun other hother => h other (List.mem_cons_of_mem _ hother))

/-! ### Values -/

/-- What is written between brackets, if anything, opens an array or an object that has something in
it. -/
theorem opens_join (opening closing : UInt8) (hopening : Begins opening)
    (hclosing : ¬ Begins closing) {b : UInt8} {first tail : Bytes} (hfirst : first = b :: tail)
    (hb : Begins b) (others : List Bytes) (rest : Bytes) :
    Opens opening closing
      (opening :: (Bytes.joinWith [Ascii.comma] (first :: others) ++ closing :: rest))
      (Bytes.joinWith [Ascii.comma] (first :: others) ++ closing :: rest) := by
  obtain ⟨after, hjoin⟩ : ∃ after,
      Bytes.joinWith [Ascii.comma] (first :: others) ++ closing :: rest = b :: after := by
    rw [hfirst]
    cases others with
    | nil => exact ⟨_, rfl⟩
    | cons second others => exact ⟨_, join_cons_cons _ _ _ _ _⟩
  rw [hjoin]
  exact ⟨hopening.skipBlanks _, b, after, hb.skipBlanks _, hb.ne hclosing⟩

theorem readsBack_array [DoublePrinter] {items : List Json} (h : ∀ item ∈ items, item.ReadsBack) :
    (array items).ReadsBack := by
  intro rest _
  rw [write, writeItems_eq_map]
  simp only [List.cons_append, List.append_assoc, List.nil_append]
  cases items with
  | nil => rfl
  | cons item items =>
    obtain ⟨b, tail, htext, hb⟩ := item.exists_begins_write
    have hopens :=
      opens_join Ascii.openBracket Ascii.closeBracket (by decide)
      (by decide) htext hb (items.map write) rest
    rw [List.map_cons, valueAt_of_opens_array hopens, ← List.map_cons, itemsAt_write h]
    rfl

theorem readsBack_object [DoublePrinter] {members : List (Bytes × Json)}
    (horder : InOrder members)
    (h : ∀ member ∈ members, Utf8.isWellFormed member.1 = true ∧ member.2.ReadsBack) :
    (object members).ReadsBack := by
  intro rest _
  have hwrite : writeMembers members = members.map writeMember := writeMembers_eq_map members
  rw [write, hwrite]
  simp only [List.cons_append, List.append_assoc, List.nil_append]
  cases members with
  | nil => rfl
  | cons member members =>
    have hopens :=
      opens_join Ascii.openBrace Ascii.closeBrace (by decide) (by decide)
        (show writeMember member = Ascii.quote :: _ from rfl) (by decide)
        (members.map writeMember) rest
    rw [List.map_cons, valueAt_of_opens_object hopens, ← List.map_cons, membersAt_write h]
    exact congrArg (fun value => Except.ok (value, rest)) (ofMembers_of_inOrder horder)

/-- A readable value is read from its text, in front of any rest that cannot go on with a number. -/
theorem Readable.readsBack [DoublePrinter] [LawfulDoublePrinter] {size : Nat} {value : Json}
    (h : value.Readable size) : value.ReadsBack := by
  induction h with
  | null =>
    intro rest _
    rw [write]
    rfl
  | bool b =>
    intro rest hrest
    cases b with
    | false =>
      rw [write]
      exact Word.isFalse.readValue_append hrest _
    | true =>
      rw [write]
      exact Word.isTrue.readValue_append hrest _
  | integer hlow hhigh =>
    intro rest hrest
    rw [write, ← text_integerToken]
    exact (Word.number (wellFormed_integerToken _) (value_integerToken hlow hhigh)).readValue_append
      hrest _
  | double negative rank =>
    intro rest hrest
    obtain ⟨token, hwellFormed, htext, hvalue⟩ :=
      Layout.json.exists_token_finite LawfulDoublePrinter.readsBack negative rank
    rw [write, Binary64.jsonText, ← htext]
    exact (Word.number hwellFormed hvalue).readValue_append hrest _
  | string hs =>
    intro rest _
    rw [write]
    exact valueAt_string hs rest
  | array _ _ ih => exact readsBack_array ih
  | object horder hkeys _ ih =>
    exact readsBack_object horder fun member hmember => ⟨hkeys member hmember, ih member hmember⟩

/-- The text of a readable value is read as the value. -/
theorem read_write [DoublePrinter] [LawfulDoublePrinter] {size : Nat} {value : Json}
    (h : value.Readable size) : read value.write = .ok value := by
  obtain ⟨b, tail, htext, hb⟩ := value.exists_begins_write
  have hmark : skipByteOrderMark value.write = value.write := by rw [htext, hb.skipByteOrderMark]
  have hvalue : valueAt value.write = .ok (value, []) := by
    have hback := h.readsBack [] NumberToken.ends_nil
    rwa [List.append_nil] at hback
  rw [read, hmark]
  show (valueAt value.write >>= _) = _
  rw [hvalue]
  rfl

end FieldRules.Json

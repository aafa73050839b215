import FieldRules.Binary64.Layout
import FieldRules.Json.Reader
import FieldRules.Proofs.Json.NumberToken

/-!
# Number texts read back

* `exists_starts_finite`: the text of a finite value begins as a number does, whatever its digits
  are.
* `exists_token_finite`: with digits that read back it is a number token that stands for the value.
* `LawfulDoublePrinter`: the printers of documents with such digits.
* `Begins`: the bytes that texts of values begin with; such a text has nothing to skip.
* `read_token`: the text of a well-formed token alone is read as the value of the token.
* `read_finite` and `read_ofInt`: what is written for a finite value or for an integer of 64 bits is
  read as it.
-/

namespace FieldRules

open Numeral Bytes

/-! ### Layouts -/

/-- Holds of a token, not that of an integer, that is written as a sign and the given text and
rounds as the given number does. -/
structure NumberToken.Spells (token : NumberToken) (negative : Bool) (text : Bytes)
    (number : Decimal) : Prop where
  wellFormed : token.WellFormed
  negative_eq : token.negative = negative
  isInteger : token.isInteger = false
  text_eq : token.text = (if negative then [Ascii.minus] else []) ++ text
  rank_eq : Binary64.decimalRank token.decimal = Binary64.decimalRank number

namespace Layout

theorem utf8_zeroPoint : utf8 "0." = [Ascii.zero, Ascii.dot] := rfl

theorem utf8_pointZero : utf8 ".0" = [Ascii.dot, Ascii.zero] := rfl

theorem isDigit_zeros (count : Nat) : ∀ b ∈ zeros count, Ascii.isDigit b = true := by
  intro b hb
  rw [List.eq_of_mem_replicate hb]
  decide

theorem value_zeros_append (count : Nat) (digits : Bytes) :
    value (zeros count ++ digits) = value digits := by
  rw [value_append, zeros, value_zeros]
  omega

section Positional

variable {digits : Bytes} (hdigits : IsDigits digits) (hhead : digits.head? ≠ some Ascii.zero)
include hdigits

/-- A number below one: all digits stand behind the point. -/
theorem spells_below_one (negative : Bool) {point : Int} (hpoint : point ≤ 0) :
    (⟨negative, [Ascii.zero], some (zeros (-point).toNat ++ digits), none⟩ :
      NumberToken).Spells negative
      (positional digits point) ⟨value digits, point - digits.length⟩ where
  wellFormed := by
    refine ⟨isDigits_zero, fun _ => rfl, ?_, by simp⟩
    rintro fraction ⟨⟩
    refine ⟨by simp [hdigits.ne_nil], ?_⟩
    intro b hb
    rcases List.mem_append.1 hb with h | h
    · exact isDigit_zeros _ b h
    · exact hdigits.isDigit b h
  negative_eq := rfl
  isInteger := rfl
  text_eq := by
    rw [positional, if_pos hpoint, utf8_zeroPoint]
    simp [NumberToken.text]
  rank_eq := by
    have hlength : (zeros (-point).toNat ++ digits).length =
        (-point).toNat + digits.length := by simp [zeros]
    have hvalue : value ([Ascii.zero] ++ (zeros (-point).toNat ++ digits)) = value digits :=
      (value_zeros_append 1 _).trans (value_zeros_append _ digits)
    simp only [NumberToken.decimal, Option.getD_some, Option.elim_none, hvalue, hlength]
    congr 2
    omega

include hhead

/-- A whole number: zeros up to the point stand behind the digits. -/
theorem spells_whole (negative : Bool) {point : Int} (hpoint : 0 < point)
    (hle : digits.length ≤ point.toNat) :
    (⟨negative, digits ++ zeros (point.toNat - digits.length), some [Ascii.zero], none⟩ :
      NumberToken).Spells negative
      (positional digits point) ⟨value digits, point - digits.length⟩ where
  wellFormed := by
    refine ⟨hdigits.append (isDigit_zeros _), ?_, ?_, by simp⟩
    · obtain ⟨b, tail, rfl⟩ := List.exists_cons_of_ne_nil hdigits.ne_nil
      exact fun h => absurd h hhead
    · rintro fraction ⟨⟩
      exact isDigits_zero
  negative_eq := rfl
  isInteger := rfl
  text_eq := by
    rw [positional, if_neg (Int.not_le.2 hpoint), if_pos hle, utf8_pointZero]
    simp [NumberToken.text]
  rank_eq := by
    obtain ⟨count, hcount⟩ := Nat.exists_eq_add_of_le hle
    have hvalue : value (digits ++ zeros count ++ [Ascii.zero]) =
        value digits * 10 ^ (count + 1) := by
      rw [List.append_assoc, value_append, zeros, ← List.replicate_succ', value_zeros,
        List.length_replicate, Nat.add_zero]
    simp only [NumberToken.decimal, Option.getD_some, Option.elim_none, hcount,
      Nat.add_sub_cancel_left, hvalue]
    rw [Binary64.decimalRank_shift]
    congr 2
    simp only [List.length_singleton]
    omega

/-- A number with digits on both sides of the point. -/
theorem spells_split (negative : Bool) {point : Int} (hpoint : 0 < point)
    (hlt : point.toNat < digits.length) :
    (⟨negative, digits.take point.toNat, some (digits.drop point.toNat), none⟩ :
      NumberToken).Spells negative
      (positional digits point) ⟨value digits, point - digits.length⟩ where
  wellFormed := by
    obtain ⟨count, hcount⟩ : ∃ count, point.toNat = count + 1 := ⟨point.toNat - 1, by omega⟩
    refine ⟨⟨?_, fun b hb => hdigits.isDigit b (List.mem_of_mem_take hb)⟩, ?_, ?_, by simp⟩
    · simp [hcount, hdigits.ne_nil]
    · obtain ⟨b, tail, rfl⟩ := List.exists_cons_of_ne_nil hdigits.ne_nil
      rw [hcount]
      exact fun h => absurd h hhead
    · rintro fraction ⟨⟩
      exact ⟨by simp [hlt], fun b hb => hdigits.isDigit b (List.mem_of_mem_drop hb)⟩
  negative_eq := rfl
  isInteger := rfl
  text_eq := by
    rw [positional, if_neg (Int.not_le.2 hpoint), if_neg (Nat.not_le.2 hlt)]
    simp [NumberToken.text]
  rank_eq := by
    simp only [NumberToken.decimal, Option.getD_some, Option.elim_none, List.take_append_drop,
      List.length_drop]
    congr 2
    omega

/-- A number with one digit in front of the point and an exponent. -/
theorem spells_scientific (negative : Bool) (point : Int) :
    (⟨negative, digits.take 1, if (digits.drop 1).isEmpty then none else some (digits.drop 1),
      some ⟨Ascii.lowerE, [if point - 1 < 0 then Ascii.minus else Ascii.plus],
        zeros (2 - (ofNat (point - 1).natAbs).length) ++ ofNat (point - 1).natAbs⟩⟩ :
          NumberToken).Spells negative
      (scientific digits point) ⟨value digits, point - digits.length⟩ where
  wellFormed := by
    obtain ⟨b, tail, rfl⟩ := List.exists_cons_of_ne_nil hdigits.ne_nil
    refine ⟨⟨by simp, fun c hc => hdigits.isDigit c (List.mem_of_mem_take hc)⟩, fun h =>
      absurd h hhead, ?_, ?_⟩
    · cases tail with
      | nil => simp
      | cons c tail =>
        rintro fraction ⟨⟩
        exact ⟨by simp, fun d hd => hdigits.isDigit d (List.mem_of_mem_drop hd)⟩
    · rintro part ⟨⟩
      refine ⟨Or.inl rfl, ?_, ?_⟩
      · by_cases h : point - 1 < 0
        · exact Or.inr (Or.inr (by rw [if_pos h]))
        · exact Or.inr (Or.inl (by rw [if_neg h]))
      · have hwritten := isDigits_ofNat (point - 1).natAbs
        refine ⟨by simp [hwritten.ne_nil], fun c hc => ?_⟩
        rcases List.mem_append.1 hc with h | h
        · exact isDigit_zeros _ c h
        · exact hwritten.isDigit c h
  negative_eq := rfl
  isInteger := by simp [NumberToken.isInteger]
  text_eq := by
    obtain ⟨b, tail, rfl⟩ := List.exists_cons_of_ne_nil hdigits.ne_nil
    cases tail <;> simp [scientific, exponent, NumberToken.text, ExponentPart.text]
  rank_eq := by
    have hexponent : ExponentPart.value ⟨Ascii.lowerE,
        [if point - 1 < 0 then Ascii.minus else Ascii.plus],
        zeros (2 - (ofNat (point - 1).natAbs).length) ++ ofNat (point - 1).natAbs⟩ = point - 1 := by
      rw [ExponentPart.value, value_zeros_append, value_ofNat]
      by_cases h : point - 1 < 0
      · rw [if_pos h, if_pos rfl]
        omega
      · rw [if_neg h, if_neg (show [Ascii.plus] ≠ [Ascii.minus] by decide)]
        omega
    obtain ⟨b, tail, rfl⟩ := List.exists_cons_of_ne_nil hdigits.ne_nil
    simp only [NumberToken.decimal, Option.elim_some, hexponent]
    -- without a second digit there is no fraction
    cases tail with
    | nil => simp
    | cons c tail =>
      simp only [List.drop_succ_cons, List.drop_zero, List.isEmpty_cons,
        List.take_succ_cons, List.take_zero,
        List.cons_append, List.nil_append, List.length_cons]
      congr 2
      simp
      omega

end Positional

/-- The text of a positive number is a token that rounds as the number does. -/
theorem exists_spells_magnitude (layout : Layout) (negative : Bool) {number : Decimal}
    (hpos : 0 < number.coefficient) :
    ∃ token : NumberToken, token.Spells negative (layout.magnitude number) number := by
  have hdigits := isDigits_ofNat number.coefficient
  have hhead := head_ofNat_ne_zero hpos
  obtain ⟨point, hpoint⟩ : ∃ point, point = ((ofNat number.coefficient).length : Int) +
      number.exponent := ⟨_, rfl⟩
  have hnumber : number = ⟨value (ofNat number.coefficient),
      point - (ofNat number.coefficient).length⟩ := by
    rw [value_ofNat, hpoint, add_sub_cancel_left]
  have hmagnitude : layout.magnitude number =
      if -4 < point ∧ point ≤ layout.widest then positional (ofNat number.coefficient) point
      else scientific (ofNat number.coefficient) point := by
    rw [magnitude, hpoint]
  rw [hmagnitude]
  -- the digits matter only in that they are some and do not begin with zero
  generalize ofNat number.coefficient = digits at hdigits hhead hnumber ⊢
  rw [hnumber]
  split_ifs
  · rcases le_or_gt point 0 with hle | hlt
    · exact ⟨_, spells_below_one hdigits negative hle⟩
    · rcases le_or_gt digits.length point.toNat with hwhole | hsplit
      · exact ⟨_, spells_whole hdigits hhead negative hlt hwhole⟩
      · exact ⟨_, spells_split hdigits hhead negative hlt hsplit⟩
  · exact ⟨_, spells_scientific hdigits hhead negative point⟩

/-- The text of a number begins with one of its digits, or with a zero in front of the point. -/
theorem exists_isDigit_magnitude (layout : Layout) (number : Decimal) :
    ∃ b tail, layout.magnitude number = b :: tail ∧ Ascii.isDigit b = true := by
  have hdigits := isDigits_ofNat number.coefficient
  obtain ⟨b, tail, hofNat⟩ := List.exists_cons_of_ne_nil hdigits.ne_nil
  have hb : Ascii.isDigit b = true := hdigits.isDigit b (by simp [hofNat])
  simp only [magnitude, hofNat, positional, scientific]
  split_ifs with _ hbelow hwhole
  · exact ⟨Ascii.zero, _, rfl, by decide⟩
  · exact ⟨b, _, rfl, hb⟩
  · obtain ⟨count, hcount⟩ : ∃ count, ((b :: tail).length + number.exponent).toNat = count + 1 :=
      ⟨((b :: tail).length + number.exponent).toNat - 1, by omega⟩
    exact ⟨b, _, by rw [hcount, List.take_succ_cons, List.cons_append], hb⟩
  · exact ⟨b, _, by rw [List.take_succ_cons, List.cons_append, List.cons_append], hb⟩
  · exact ⟨b, _, by rw [List.take_succ_cons, List.cons_append, List.cons_append], hb⟩

/-- The text of a finite value begins as a number does, whatever its digits are. -/
theorem exists_starts_finite (layout : Layout) (decimal : Nat → Decimal) (negative : Bool)
    (rank : Nat) :
    ∃ b tail, layout.finite decimal negative rank = b :: tail ∧ NumberToken.Starts b := by
  cases negative with
  | true => exact ⟨Ascii.minus, _, rfl, Or.inr rfl⟩
  | false =>
    rw [finite, if_neg Bool.false_ne_true, List.nil_append]
    split_ifs
    · exact ⟨Ascii.zero, _, rfl, Or.inl (by decide)⟩
    · obtain ⟨b, tail, htext, hb⟩ := exists_isDigit_magnitude layout (decimal rank)
      exact ⟨b, tail, htext, Or.inl hb⟩

/-- With digits that read back, the text of a finite value is a token that stands for the value. -/
theorem exists_token_finite (layout : Layout) {decimal : Nat → Decimal}
    (hdecimal : Binary64.ReadsBack decimal) (negative : Bool) (rank : Fin Binary64.rankCount) :
    ∃ token : NumberToken, token.WellFormed ∧ token.text = layout.finite decimal negative rank ∧
      token.value = some (.double (.finite negative rank)) := by
  have hspells : ∃ (token : NumberToken) (number : Decimal), Binary64.decimalRank number = rank ∧
      token.Spells negative
        (if rank.val = 0 then utf8 "0.0" else layout.magnitude (decimal rank)) number := by
    -- zero has a text of its own; only of other numbers the digits do not begin with zero
    by_cases hzero : rank.val = 0
    · rw [if_pos hzero, hzero]
      refine ⟨⟨negative, [Ascii.zero], some [Ascii.zero], none⟩, ⟨0, -1⟩,
        Binary64.decimalRank_of_coefficient_zero rfl, ?_, rfl, rfl, ?_, ?_⟩
      · refine ⟨isDigits_zero, fun _ => rfl, ?_, by simp⟩
        rintro fraction ⟨⟩
        exact isDigits_zero
      · cases negative <;> rfl
      · rw [Binary64.decimalRank_of_coefficient_zero rfl,
          Binary64.decimalRank_of_coefficient_zero rfl]
    · rw [if_neg hzero]
      have hpos := hdecimal.coefficient_pos (Nat.pos_of_ne_zero hzero) rank.isLt
      obtain ⟨token, htoken⟩ := exists_spells_magnitude layout negative hpos
      exact ⟨token, _, hdecimal.decimalRank_eq (Nat.pos_of_ne_zero hzero) rank.isLt, htoken⟩
  obtain ⟨token, number, hrank, htoken⟩ := hspells
  refine ⟨token, htoken.wellFormed, htoken.text_eq, ?_⟩
  have hvalue :=
    NumberToken.value_of_not_isInteger htoken.isInteger (htoken.rank_eq.trans hrank) rank.isLt
  rwa [htoken.negative_eq] at hvalue

end Layout

/-- Holds of a printer that loses nothing: the number that it shows a value as reads back as the
value. -/
class LawfulDoublePrinter [DoublePrinter] : Prop where
  readsBack : Binary64.ReadsBack DoublePrinter.decimal

instance : LawfulDoublePrinter := ⟨Binary64.readsBack_shortest⟩

/-! ### Reading -/

namespace Json

open NumberToken

/-- Holds of the bytes that the text of a value begins with. -/
def Begins (b : UInt8) : Prop :=
  Starts b ∨ b ∈ [Ascii.quote, Ascii.openBracket, Ascii.openBrace, 0x74, 0x66, 0x6E]

instance (b : UInt8) : Decidable (Begins b) := inferInstanceAs (Decidable (_ ∨ _))

namespace Begins

variable {b : UInt8}

theorem ne {c : UInt8} (hb : Begins b) (hc : ¬ Begins c) : b ≠ c := by
  rintro rfl
  exact hc hb

theorem skipBlanks (hb : Begins b) (rest : Bytes) : skipBlanks (b :: rest) = b :: rest := by
  refine dropWhile_of_stops (stops_cons.2 ?_)
  have htab : b ≠ Ascii.tab := hb.ne (by decide)
  have hfeed : b ≠ Ascii.lineFeed := hb.ne (by decide)
  have hreturn : b ≠ Ascii.carriageReturn := hb.ne (by decide)
  have hspace : b ≠ Ascii.space := hb.ne (by decide)
  simp [isBlank, htab, hfeed, hreturn, hspace]

theorem skipByteOrderMark (hb : Begins b) (rest : Bytes) :
    skipByteOrderMark (b :: rest) = b :: rest := by
  have hmark : ¬ (0xEF : UInt8) = b := (hb.ne (by decide)).symm
  simp [Json.skipByteOrderMark, byteOrderMark, dropPrefix?, hmark]

end Begins

theorem readValue_of_starts {fuel : Nat} {b : UInt8} (hb : Starts b) (rest : Bytes) :
    readValue (fuel + 1) (b :: rest) = readNumber (b :: rest) := by
  rw [readValue, Begins.skipBlanks (Or.inl hb)]
  simp only [if_neg (show ¬ b = Ascii.quote from hb.ne (by decide)),
    if_neg (show ¬ b = Ascii.openBracket from hb.ne (by decide)),
    if_neg (show ¬ b = Ascii.openBrace from hb.ne (by decide)),
    if_neg (show ¬ b = 0x74 from hb.ne (by decide)),
    if_neg (show ¬ b = 0x66 from hb.ne (by decide)),
    if_neg (show ¬ b = 0x6E from hb.ne (by decide))]

theorem readNumber_append {token : NumberToken} (h : token.WellFormed) {value : Json}
    (hvalue : token.value = some value) {rest : Bytes} (hrest : Ends rest) :
    readNumber (token.text ++ rest) = .ok (value, rest) := by
  simp only [readNumber, scan_append h hrest, hvalue]

theorem read_token {token : NumberToken} (h : token.WellFormed) {value : Json}
    (hvalue : token.value = some value) :
    read token.text = .ok value := by
  obtain ⟨b, rest, htext, hb⟩ := h.exists_starts
  have hnumber : readNumber token.text = .ok (value, []) := by
    rw [← List.append_nil token.text]
    exact readNumber_append h hvalue ends_nil
  rw [htext] at hnumber ⊢
  rw [read, Begins.skipByteOrderMark (Or.inl hb), readValue_of_starts hb, hnumber]
  rfl

theorem read_finite (layout : Layout) {decimal : Nat → Decimal}
    (hdecimal : Binary64.ReadsBack decimal) (negative : Bool) (rank : Fin Binary64.rankCount) :
    read (layout.finite decimal negative rank) = .ok (.double (.finite negative rank)) := by
  obtain ⟨token, hwellFormed, htext, hvalue⟩ := layout.exists_token_finite hdecimal negative rank
  rw [← htext]
  exact read_token hwellFormed hvalue

/-! ### Integers -/

/-- The token of an integer. -/
def integerToken (n : Int) : NumberToken :=
  ⟨decide (n < 0), ofNat n.natAbs, none, none⟩

theorem text_integerToken (n : Int) : (integerToken n).text = ofInt n := by
  cases n with
  | ofNat n => simp [integerToken, NumberToken.text, ofInt, show ¬ ((n : Int) < 0) by omega]
  | negSucc n => simp [integerToken, NumberToken.text, ofInt, Int.negSucc_lt_zero]

theorem wellFormed_integerToken (n : Int) : (integerToken n).WellFormed where
  whole := isDigits_ofNat n.natAbs
  whole_head := by
    rcases Nat.eq_zero_or_pos n.natAbs with hzero | hpos
    · simp only [integerToken, hzero]
      exact fun _ => rfl
    · exact fun h => absurd h (head_ofNat_ne_zero hpos)
  fraction := by simp [integerToken]
  exponent := by simp [integerToken]

theorem integerValue_integerToken (n : Int) : (integerToken n).integerValue = n := by
  simp only [NumberToken.integerValue, integerToken, value_ofNat, decide_eq_true_eq]
  split_ifs <;> omega

theorem isExact_integerToken {n : Int} (hlow : -2 ^ 63 ≤ n) (hhigh : n < 2 ^ 64) :
    (integerToken n).isExact = true := by
  simp only [NumberToken.isExact, NumberToken.isInteger, integerToken, value_ofNat,
    decide_eq_true_eq, Nat.pow_eq, Option.isNone_none, Bool.and_self, Bool.true_and]
  split_ifs <;> rw [decide_eq_true_eq] <;> omega

theorem value_integerToken {n : Int} (hlow : -2 ^ 63 ≤ n) (hhigh : n < 2 ^ 64) :
    (integerToken n).value = some (.integer n) := by
  rw [value_of_isExact (isExact_integerToken hlow hhigh), integerValue_integerToken]

/-- An integer of 64 bits, with or without a sign, is read as it is written. -/
theorem read_ofInt {n : Int} (hlow : -2 ^ 63 ≤ n) (hhigh : n < 2 ^ 64) :
    read (ofInt n) = .ok (.integer n) := by
  rw [← text_integerToken]
  exact read_token (wellFormed_integerToken n) (value_integerToken hlow hhigh)

end Json

end FieldRules

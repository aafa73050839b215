import FieldRules.Json.Number
import FieldRules.Proofs.Binary64.Decimal
import FieldRules.Proofs.Text.Numeral
import FieldRules.Proofs.Text.Span
import Mathlib.Data.List.TakeWhile
import Mathlib.Tactic.SplitIfs

/-!
# Well-formed number tokens

* `NumberToken.WellFormed`: the tokens that the grammar of JSON numbers allows.
* `scan_append`: the text of a well-formed token is taken off as a whole if what follows cannot go
  on with it.
* `wellFormed_of_scan`: nothing but well-formed tokens is taken off.
* `value_of_not_isInteger` and `value_of_isExact`: the JSON value of a token; `value_eq_none_iff`
  tells when there is none.
* `range_of_value` and `isFinite_of_value`: which integers and which other numbers there are among
  the values.
-/

namespace FieldRules

open Numeral Bytes

/-- Holds of a marker, a sign or none, and digits. -/
structure ExponentPart.WellFormed (part : ExponentPart) : Prop where
  marker : part.marker = Ascii.lowerE ∨ part.marker = Ascii.upperE
  sign : part.sign = [] ∨ part.sign = [Ascii.plus] ∨ part.sign = [Ascii.minus]
  digits : IsDigits part.digits

namespace NumberToken

/-- Holds of a token with digits wherever there have to be some and without a leading zero. -/
structure WellFormed (token : NumberToken) : Prop where
  whole : IsDigits token.whole
  whole_head : token.whole.head? = some Ascii.zero → token.whole = [Ascii.zero]
  fraction : ∀ digits ∈ token.fraction, IsDigits digits
  exponent : ∀ part ∈ token.exponent, part.WellFormed

/-- Holds of a text that cannot go on with a number. -/
def Ends (rest : Bytes) : Prop :=
  Stops (fun b => Ascii.isDigit b || b == Ascii.dot || b == Ascii.lowerE || b == Ascii.upperE) rest

theorem ends_nil : Ends [] := stops_nil _

theorem Ends.stops_isDigit {rest : Bytes} (h : Ends rest) : Stops Ascii.isDigit rest := by
  intro b hb
  have := h b hb
  simp only [Bool.or_eq_false_iff] at this
  exact this.1.1.1

/-! ### The first byte -/

/-- Holds of the bytes that a number begins with. -/
def Starts (b : UInt8) : Prop :=
  Ascii.isDigit b = true ∨ b = Ascii.minus

instance (b : UInt8) : Decidable (Starts b) := inferInstanceAs (Decidable (_ ∨ _))

theorem WellFormed.exists_starts {token : NumberToken} (h : token.WellFormed) :
    ∃ b rest, token.text = b :: rest ∧ Starts b := by
  obtain ⟨b, tail, hwhole⟩ := List.exists_cons_of_ne_nil h.whole.ne_nil
  have hb : Ascii.isDigit b = true :=
    h.whole.isDigit b (by rw [hwhole]; exact List.mem_cons_self ..)
  cases hnegative : token.negative with
  | true => exact ⟨Ascii.minus, _, by simp [text, hnegative]; rfl, Or.inr rfl⟩
  | false => exact ⟨b, _, by simp [text, hnegative, hwhole]; rfl, Or.inl hb⟩

theorem Starts.ne {b c : UInt8} (hb : Starts b) (hc : ¬ Starts c) : b ≠ c := by
  rintro rfl
  exact hc hb

/-! ### Scanning a written token -/

theorem scanDigits_append {digits rest : Bytes} (h : IsDigits digits)
    (hrest : Stops Ascii.isDigit rest) :
    scanDigits (digits ++ rest) = some (digits, rest) := by
  have htake := takeWhile_append_of_stops h.isDigit hrest
  have hdrop := dropWhile_append_of_stops h.isDigit hrest
  rw [scanDigits, htake, hdrop]
  split
  · exact absurd rfl h.ne_nil
  · rfl

theorem scanWhole_append {digits rest : Bytes} (h : IsDigits digits)
    (hhead : digits.head? = some Ascii.zero → digits = [Ascii.zero])
    (hrest : Stops Ascii.isDigit rest) :
    scanWhole (digits ++ rest) = some (digits, rest) := by
  obtain ⟨b, tail, rfl⟩ := List.exists_cons_of_ne_nil h.ne_nil
  rw [List.cons_append, scanWhole]
  by_cases hb : b = Ascii.zero
  · have htail : tail = [] := by simpa [hb] using hhead
    rw [if_pos hb, htail, List.nil_append]
  · rw [if_neg hb, ← List.cons_append]
    exact scanDigits_append h hrest

theorem scanFraction_append {fraction : Option Bytes} {rest : Bytes}
    (h : ∀ digits ∈ fraction, IsDigits digits)
    (hrest : Stops (fun b => Ascii.isDigit b || b == Ascii.dot) rest) :
    scanFraction (fraction.elim [] (Ascii.dot :: ·) ++ rest) = some (fraction, rest) := by
  have hdigit : Stops Ascii.isDigit rest := fun b hb => (Bool.or_eq_false_iff.1 (hrest b hb)).1
  cases fraction with
  | some digits =>
    rw [Option.elim_some, List.cons_append, scanFraction, if_pos rfl,
      scanDigits_append (h digits rfl) hdigit]
    rfl
  | none =>
    rw [Option.elim_none, List.nil_append]
    cases rest with
    | nil => rfl
    | cons b rest =>
      have hdot : b ≠ Ascii.dot := by simpa using (Bool.or_eq_false_iff.1 (stops_cons.1 hrest)).2
      rw [scanFraction, if_neg hdot]

theorem isDigit_ne_sign {b : UInt8} (h : Ascii.isDigit b = true) :
    b ≠ Ascii.plus ∧ b ≠ Ascii.minus := by
  constructor <;> rintro rfl <;> exact absurd h (by decide)

theorem scanSign_append {sign digits : Bytes}
    (hsign : sign = [] ∨ sign = [Ascii.plus] ∨ sign = [Ascii.minus]) (h : IsDigits digits)
    (rest : Bytes) :
    scanSign (sign ++ (digits ++ rest)) = (sign, digits ++ rest) := by
  obtain ⟨b, tail, rfl⟩ := List.exists_cons_of_ne_nil h.ne_nil
  rcases hsign with rfl | rfl | rfl
  · obtain ⟨hplus, hminus⟩ := isDigit_ne_sign (h.isDigit b (List.mem_cons_self ..))
    rw [List.nil_append, List.cons_append, scanSign, if_neg (by simp [hplus, hminus])]
  · rfl
  · rfl

theorem scanExponent_append {exponent : Option ExponentPart} {rest : Bytes}
    (h : ∀ part ∈ exponent, part.WellFormed) (hrest : Ends rest) :
    scanExponent (exponent.elim [] ExponentPart.text ++ rest) = some (exponent, rest) := by
  cases exponent with
  | some part =>
    obtain ⟨marker, sign, digits⟩ := part
    obtain ⟨hmarker, hsign, hdigits⟩ := h _ rfl
    have htext : ExponentPart.text ⟨marker, sign, digits⟩ ++ rest =
        marker :: (sign ++ (digits ++ rest)) := by
      simp [ExponentPart.text]
    rw [Option.elim_some, htext, scanExponent, if_pos hmarker, scanSign_append hsign hdigits,
      scanDigits_append hdigits hrest.stops_isDigit]
    rfl
  | none =>
    rw [Option.elim_none, List.nil_append]
    cases rest with
    | nil => rfl
    | cons b rest =>
      have hmarker : ¬ (b = Ascii.lowerE ∨ b = Ascii.upperE) := by
        have := stops_cons.1 hrest
        simp only [Bool.or_eq_false_iff, beq_eq_false_iff_ne] at this
        exact not_or.2 ⟨this.1.2, this.2⟩
      rw [scanExponent, if_neg hmarker]

theorem scanMinus_append {digits : Bytes} (negative : Bool) (h : IsDigits digits) (rest : Bytes) :
    scanMinus ((if negative then [Ascii.minus] else []) ++ (digits ++ rest)) =
      (negative, digits ++ rest) := by
  cases negative with
  | true => rfl
  | false =>
    obtain ⟨b, tail, rfl⟩ := List.exists_cons_of_ne_nil h.ne_nil
    have hminus := (isDigit_ne_sign (h.isDigit b (List.mem_cons_self ..))).2
    simp [scanMinus, hminus]

/-- An exponent begins with a letter, which neither digits nor a fraction go on with. -/
theorem stops_exponent {exponent : Option ExponentPart} {rest : Bytes}
    (h : ∀ part ∈ exponent, part.WellFormed) (hrest : Ends rest) :
    Stops (fun b => Ascii.isDigit b || b == Ascii.dot)
      (exponent.elim [] ExponentPart.text ++ rest) := by
  cases exponent with
  | some part =>
    rw [Option.elim_some, ExponentPart.text, List.cons_append, List.cons_append, stops_cons]
    rcases (h part rfl).marker with hmarker | hmarker <;> rw [hmarker] <;> decide
  | none =>
    rw [Option.elim_none, List.nil_append]
    intro b hb
    have := hrest b hb
    simp only [Bool.or_eq_false_iff] at this
    exact Bool.or_eq_false_iff.2 this.1.1

theorem stops_fraction {fraction : Option Bytes} {rest : Bytes}
    (hrest : Stops (fun b => Ascii.isDigit b || b == Ascii.dot) rest) :
    Stops Ascii.isDigit (fraction.elim [] (Ascii.dot :: ·) ++ rest) := by
  cases fraction with
  | some digits =>
    rw [Option.elim_some, List.cons_append, stops_cons]
    decide
  | none => exact fun b hb => (Bool.or_eq_false_iff.1 (hrest b hb)).1

/-- A well-formed token is scanned as it is written, and ends where its text does. -/
theorem scan_append {token : NumberToken} (h : token.WellFormed) {rest : Bytes}
    (hrest : Ends rest) :
    scan (token.text ++ rest) = some (token, rest) := by
  obtain ⟨negative, whole, fraction, exponent⟩ := token
  have hexponent := stops_exponent h.exponent hrest
  have htext : NumberToken.text ⟨negative, whole, fraction, exponent⟩ ++ rest =
      (if negative then [Ascii.minus] else []) ++ (whole ++
        (fraction.elim [] (Ascii.dot :: ·) ++ (exponent.elim [] ExponentPart.text ++ rest))) := by
    simp [NumberToken.text]
  rw [htext, scan, scanMinus_append negative h.whole]
  simp only [scanWhole_append h.whole h.whole_head (stops_fraction hexponent), Option.bind_eq_bind,
    Option.bind_some,
    scanFraction_append h.fraction hexponent, scanExponent_append h.exponent hrest]
  rfl

/-! ### Scanned tokens -/

theorem isDigits_of_scanDigits {s digits rest : Bytes} (h : scanDigits s = some (digits, rest)) :
    IsDigits digits := by
  unfold scanDigits at h
  split at h
  · cases h
  · next hne =>
    cases h
    exact ⟨fun hnil => hne hnil, fun b hb => List.mem_takeWhile_imp hb⟩

theorem isDigits_of_scanWhole {s digits rest : Bytes} (h : scanWhole s = some (digits, rest)) :
    IsDigits digits ∧ (digits.head? = some Ascii.zero → digits = [Ascii.zero]) := by
  unfold scanWhole at h
  split at h
  · cases h
  · next b tail =>
    split_ifs at h with hb
    · cases h
      exact ⟨hb ▸ isDigits_zero, fun _ => hb ▸ rfl⟩
    · have hdigits := isDigits_of_scanDigits h
      refine ⟨hdigits, fun hhead => ?_⟩
      obtain ⟨others, rfl⟩ := List.head?_eq_some_iff.1 hhead
      exact absurd (List.cons.inj (scanDigits_text h)).1.symm hb

theorem isDigits_of_scanFraction {s rest : Bytes} {fraction : Option Bytes}
    (h : scanFraction s = some (fraction, rest)) : ∀ digits ∈ fraction, IsDigits digits := by
  unfold scanFraction at h
  split at h
  · cases h
    simp
  · split_ifs at h
    · obtain ⟨⟨digits, after⟩, hdigits, heq⟩ := Option.map_eq_some_iff.1 h
      cases heq
      rintro _ ⟨⟩
      exact isDigits_of_scanDigits hdigits
    · cases h
      simp

theorem sign_of_scanSign (s : Bytes) :
    (scanSign s).1 = [] ∨ (scanSign s).1 = [Ascii.plus] ∨ (scanSign s).1 = [Ascii.minus] := by
  unfold scanSign
  split
  · exact Or.inl rfl
  · split_ifs with hsign
    · rcases hsign with rfl | rfl
      · exact Or.inr (Or.inl rfl)
      · exact Or.inr (Or.inr rfl)
    · exact Or.inl rfl

theorem wellFormed_of_scanExponent {s rest : Bytes} {exponent : Option ExponentPart}
    (h : scanExponent s = some (exponent, rest)) : ∀ part ∈ exponent, part.WellFormed := by
  unfold scanExponent at h
  split at h
  · cases h
    simp
  · split_ifs at h with hmarker
    · obtain ⟨⟨digits, after⟩, hdigits, heq⟩ := Option.map_eq_some_iff.1 h
      cases heq
      rintro _ ⟨⟩
      exact ⟨hmarker, sign_of_scanSign _, isDigits_of_scanDigits hdigits⟩
    · cases h
      simp

/-- Only well-formed tokens are scanned. -/
theorem wellFormed_of_scan {s rest : Bytes} {token : NumberToken}
    (h : scan s = some (token, rest)) :
    token.WellFormed := by
  simp only [scan, Option.bind_eq_bind, Option.bind_eq_some_iff, Prod.exists, Option.pure_def,
    Option.some.injEq, Prod.mk.injEq] at h
  obtain ⟨whole, _, hwhole, fraction, _, hfraction, exponent, _, hexponent, rfl, -⟩ := h
  exact ⟨(isDigits_of_scanWhole hwhole).1, (isDigits_of_scanWhole hwhole).2,
    isDigits_of_scanFraction hfraction,
    wellFormed_of_scanExponent hexponent⟩

/-- A text is scanned to its end exactly if it is the text of a well-formed token. -/
theorem scan_eq_some_nil_iff {s : Bytes} {token : NumberToken} :
    scan s = some (token, []) ↔ token.WellFormed ∧ token.text = s := by
  constructor
  · intro h
    exact ⟨wellFormed_of_scan h, by rw [← scan_text h, List.append_nil]⟩
  · rintro ⟨h, rfl⟩
    rw [← scan_append h ends_nil, List.append_nil]

/-! ### Values -/

/-- A token with a fraction or an exponent stands for the value nearest to it. -/
theorem value_of_not_isInteger {token : NumberToken} (h : token.isInteger = false) {rank : Nat}
    (hrank : Binary64.decimalRank token.decimal = rank) (hlt : rank < Binary64.rankCount) :
    token.value = some (.double (.finite token.negative ⟨rank, hlt⟩)) := by
  have hrounded : token.rounded = .finite token.negative ⟨rank, hlt⟩ := by
    rw [rounded, Binary64.ofDecimal_eq_ofRank, hrank, Binary64.ofRank_of_lt hlt]
  rw [value, hrounded]
  simp [isExact, h, Binary64.isFinite]

theorem value_of_isExact {token : NumberToken} (h : token.isExact = true) :
    token.value = some (.integer token.integerValue) := if_pos h

theorem decimal_of_isInteger {token : NumberToken} (h : token.isInteger = true) :
    token.decimal = ⟨Numeral.value token.whole, 0⟩ := by
  simp only [isInteger, Bool.and_eq_true, Option.isNone_iff_eq_none] at h
  simp [decimal, h.1, h.2]

/-- An integer token that is kept as an integer also rounds to a finite value. -/
theorem isFinite_rounded_of_isExact {token : NumberToken} (h : token.isExact = true) :
    token.rounded.isFinite = true := by
  rw [isExact, Bool.and_eq_true] at h
  obtain ⟨hinteger, hrange⟩ := h
  have hle : Numeral.value token.whole ≤ 2 ^ 64 := by
    split_ifs at hrange
    · have : Numeral.value token.whole ≤ 2 ^ 63 := of_decide_eq_true hrange
      omega
    · have : Numeral.value token.whole < 2 ^ 64 := of_decide_eq_true hrange
      omega
  rw [rounded, Binary64.ofDecimal_eq_ofRank, Binary64.isFinite_ofRank_iff,
    decimal_of_isInteger hinteger,
    Binary64.decimalRank]
  simpa using Binary64.nearestRank_lt_rankCount hle

/-- A token has no value exactly if the value nearest to it is an infinity. -/
theorem value_eq_none_iff {token : NumberToken} :
    token.value = none ↔ token.rounded.isFinite = false := by
  unfold value
  by_cases hexact : token.isExact = true
  · rw [if_pos hexact, isFinite_rounded_of_isExact hexact]
    simp
  · rw [if_neg hexact]
    cases token.rounded.isFinite <;> simp

/-- An integer that a token stands for has 64 bits, with or without a sign. -/
theorem range_of_value {token : NumberToken} {n : Int} (h : token.value = some (.integer n)) :
    -2 ^ 63 ≤ n ∧ n < 2 ^ 64 := by
  unfold value at h
  split_ifs at h with hexact hfinite
  · cases h
    simp only [isExact, Bool.and_eq_true] at hexact
    rw [integerValue]
    obtain ⟨-, hrange⟩ := hexact
    split_ifs at hrange ⊢
    · have : Numeral.value token.whole ≤ 2 ^ 63 := of_decide_eq_true hrange
      omega
    · have : Numeral.value token.whole < 2 ^ 64 := of_decide_eq_true hrange
      omega
  · cases h

theorem isFinite_of_value {token : NumberToken} {x : Binary64}
    (h : token.value = some (.double x)) :
    x.isFinite = true := by
  unfold value at h
  split_ifs at h with hexact hfinite
  · cases h
  · cases h
    exact hfinite

end NumberToken

end FieldRules

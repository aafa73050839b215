import FieldRules.Json.Basic
import FieldRules.Binary64.Rounding
import FieldRules.Text.Numeral

/-!
# Number tokens

* `NumberToken` is a number as it is written: sign, digits, fraction and exponent.
* `NumberToken.scan` takes the longest number token off a byte string.
* `NumberToken.value` is the JSON value of a token, if there is one.

Main statement: `scan_text`, a token and what follows it are the byte string scanned.
-/

namespace FieldRules

/-- The exponent of a number token: its marker `e` or `E`, a sign or nothing, and digits. -/
structure ExponentPart where
  marker : UInt8
  sign : Bytes
  digits : Bytes
  deriving DecidableEq, Repr

/-- A number token: a sign, the digits before the point, those after it if there is one, and an
exponent. -/
structure NumberToken where
  negative : Bool
  whole : Bytes
  fraction : Option Bytes
  exponent : Option ExponentPart
  deriving DecidableEq, Repr

namespace ExponentPart

/-- An exponent as it is written. -/
def text (part : ExponentPart) : Bytes :=
  part.marker :: part.sign ++ part.digits

/-- The number that an exponent stands for. -/
def value (part : ExponentPart) : Int :=
  if part.sign = [Ascii.minus] then -(Numeral.value part.digits : Int) else
    Numeral.value part.digits

end ExponentPart

namespace NumberToken

/-- A token as it is written. -/
def text (token : NumberToken) : Bytes :=
  (if token.negative then [Ascii.minus] else []) ++ token.whole ++
    (token.fraction.elim [] (Ascii.dot :: ·)) ++ token.exponent.elim [] ExponentPart.text

/-! ### Scanning -/

/-- Takes the digits at the start off, at least one. -/
def scanDigits (s : Bytes) : Option (Bytes × Bytes) :=
  match s.takeWhile Ascii.isDigit with
  | [] => none
  | digits => some (digits, s.dropWhile Ascii.isDigit)

/-- Takes the digits before the point off: a zero alone, or digits that do not begin with zero. -/
def scanWhole (s : Bytes) : Option (Bytes × Bytes) :=
  match s with
  | [] => none
  | b :: rest => if b = Ascii.zero then some ([b], rest) else scanDigits s

/-- Takes a point and the digits after it off, if there is a point. -/
def scanFraction (s : Bytes) : Option (Option Bytes × Bytes) :=
  match s with
  | [] => some (none, [])
  | b :: rest =>
    if b = Ascii.dot then (scanDigits rest).map fun (digits, rest) => (some digits, rest)
    else some (none, s)

/-- Takes a sign off, if there is one. -/
def scanSign (s : Bytes) : Bytes × Bytes :=
  match s with
  | [] => ([], [])
  | b :: rest => if b = Ascii.plus ∨ b = Ascii.minus then ([b], rest) else ([], s)

/-- Takes an exponent off, if there is one. -/
def scanExponent (s : Bytes) : Option (Option ExponentPart × Bytes) :=
  match s with
  | [] => some (none, [])
  | b :: rest =>
    if b = Ascii.lowerE ∨ b = Ascii.upperE then
      (scanDigits (scanSign rest).2).map fun (digits, after) =>
        (some ⟨b, (scanSign rest).1, digits⟩, after)
    else some (none, s)

/-- Tells a minus sign at the start and takes it off. -/
def scanMinus (s : Bytes) : Bool × Bytes :=
  match s with
  | [] => (false, [])
  | b :: rest => if b = Ascii.minus then (true, rest) else (false, s)

/-- Takes the number token at the start off; none if a number is begun and not completed, or not
begun. -/
def scan (s : Bytes) : Option (NumberToken × Bytes) := do
  let (whole, rest) ← scanWhole (scanMinus s).2
  let (fraction, rest) ← scanFraction rest
  let (exponent, rest) ← scanExponent rest
  return (⟨(scanMinus s).1, whole, fraction, exponent⟩, rest)

/-! ### Values -/

/-- Holds of a token without fraction and exponent. -/
def isInteger (token : NumberToken) : Bool :=
  token.fraction.isNone && token.exponent.isNone

/-- The integer that the digits before the point stand for. -/
def integerValue (token : NumberToken) : Int :=
  if token.negative then -(Numeral.value token.whole : Int) else Numeral.value token.whole

/-- The decimal number that a token stands for, its sign apart. -/
def decimal (token : NumberToken) : Decimal :=
  let fraction := token.fraction.getD []
  ⟨Numeral.value (token.whole ++ fraction),
    token.exponent.elim 0 ExponentPart.value - fraction.length⟩

/-- The binary64 value nearest to a token. -/
def rounded (token : NumberToken) : Binary64 :=
  Binary64.ofDecimal token.negative token.decimal

/-- Holds of an integer token that is kept as an integer: one without sign below `2 ^ 64`, and one
with a sign from `-2 ^ 63` on. -/
def isExact (token : NumberToken) : Bool :=
  token.isInteger &&
    if token.negative then Numeral.value token.whole ≤ Nat.pow 2 63
    else Numeral.value token.whole < Nat.pow 2 64

/-- The value of a token: an integer if it is kept as one, else the nearest binary64 number; none if
that is an infinity. -/
def value (token : NumberToken) : Option Json :=
  if token.isExact then some (.integer token.integerValue)
  else if token.rounded.isFinite then some (.double token.rounded)
  else none

/-! ### Text of what was scanned -/

theorem scanDigits_text {s digits rest : Bytes} (h : scanDigits s = some (digits, rest)) :
    digits ++ rest = s := by
  unfold scanDigits at h
  split at h
  · simp at h
  · simp only [Option.some.injEq, Prod.mk.injEq] at h
    rw [← h.1, ← h.2, List.takeWhile_append_dropWhile]

theorem scanWhole_text {s digits rest : Bytes} (h : scanWhole s = some (digits, rest)) :
    digits ++ rest = s := by
  unfold scanWhole at h
  split at h
  · simp at h
  · split at h
    · simp only [Option.some.injEq, Prod.mk.injEq] at h
      obtain ⟨rfl, rfl⟩ := h
      rfl
    · exact scanDigits_text h

theorem scanFraction_text {s rest : Bytes} {fraction : Option Bytes}
    (h : scanFraction s = some (fraction, rest)) :
    fraction.elim [] (Ascii.dot :: ·) ++ rest = s := by
  unfold scanFraction at h
  split at h
  · simp only [Option.some.injEq, Prod.mk.injEq] at h
    obtain ⟨rfl, rfl⟩ := h
    rfl
  · split at h
    · next hb =>
      simp only [Option.map_eq_some_iff, Prod.mk.injEq, Prod.exists] at h
      obtain ⟨digits, after, hd, rfl, rfl⟩ := h
      simp [hb, scanDigits_text hd]
    · simp only [Option.some.injEq, Prod.mk.injEq] at h
      obtain ⟨rfl, rfl⟩ := h
      rfl

theorem scanSign_text (s : Bytes) : (scanSign s).1 ++ (scanSign s).2 = s := by
  unfold scanSign
  split
  · rfl
  · split <;> rfl

theorem scanExponent_text {s rest : Bytes} {exponent : Option ExponentPart}
    (h : scanExponent s = some (exponent, rest)) :
    exponent.elim [] ExponentPart.text ++ rest = s := by
  unfold scanExponent at h
  split at h
  · simp only [Option.some.injEq, Prod.mk.injEq] at h
    obtain ⟨rfl, rfl⟩ := h
    rfl
  · next b tail =>
    split at h
    · simp only [Option.map_eq_some_iff, Prod.mk.injEq, Prod.exists] at h
      obtain ⟨digits, after, hd, rfl, rfl⟩ := h
      simp [ExponentPart.text, scanDigits_text hd, scanSign_text]
    · simp only [Option.some.injEq, Prod.mk.injEq] at h
      obtain ⟨rfl, rfl⟩ := h
      rfl

theorem scanMinus_text (s : Bytes) :
    (if (scanMinus s).1 then [Ascii.minus] else []) ++ (scanMinus s).2 = s := by
  unfold scanMinus
  split
  · rfl
  · split <;> simp_all

theorem scan_text {s rest : Bytes} {token : NumberToken} (h : scan s = some (token, rest)) :
    token.text ++ rest = s := by
  simp only [scan, Option.bind_eq_bind, Option.bind_eq_some_iff, Prod.exists, Option.pure_def,
    Option.some.injEq, Prod.mk.injEq] at h
  obtain ⟨whole, rest₁, hw, fraction, rest₂, hf, exponent, rest₃, he, rfl, rfl⟩ := h
  have := scanMinus_text s
  rw [← scanWhole_text hw, ← scanFraction_text hf, ← scanExponent_text he] at this
  simpa [text, List.append_assoc] using this

end NumberToken

end FieldRules

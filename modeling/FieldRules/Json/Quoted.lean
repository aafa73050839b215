import FieldRules.Text.Ascii
import FieldRules.Text.Utf8

/-!
# Quoted strings

Strings as JSON writes them: between quotes, with a backslash in front of what cannot stand there as
it is.

* `Quoted.write` writes a byte string with quotes.
* `Quoted.split` cuts at the first quote that has no backslash in front of it.
* `Quoted.decode` undoes the escapes of what stands between quotes; none if it is no string.
-/

namespace FieldRules.Quoted

/-! ### Writing -/

/-- The hexadecimal digit of a number below 16, in lower case. -/
def hexDigit (n : Nat) : UInt8 :=
  UInt8.ofNat (if n < 10 then 0x30 + n else 0x57 + n)

/-- A byte as it stands within quotes. -/
def escape (b : UInt8) : Bytes :=
  if b = Ascii.quote then utf8 "\\\""
  else if b = Ascii.backslash then utf8 "\\\\"
  else if b = 0x08 then utf8 "\\b"
  else if b = 0x0C then utf8 "\\f"
  else if b = Ascii.lineFeed then utf8 "\\n"
  else if b = Ascii.carriageReturn then utf8 "\\r"
  else if b = Ascii.tab then utf8 "\\t"
  else if b < 0x20 then utf8 "\\u00" ++ [hexDigit (b.toNat / 16), hexDigit (b.toNat % 16)]
  else [b]

/-- A byte string within quotes. -/
def write (s : Bytes) : Bytes :=
  Ascii.quote :: s.flatMap escape ++ [Ascii.quote]

/-! ### Splitting -/

/-- What stands before the first quote without a backslash in front of it, and what follows that
quote. -/
def split : Bytes → Option (Bytes × Bytes)
  | [] => none
  | b :: rest =>
    if b = Ascii.quote then some ([], rest)
    else if b = Ascii.backslash then
      match rest with
      | [] => none
      | escaped :: rest => (split rest).map fun (body, after) => (b :: escaped :: body, after)
    else (split rest).map fun (body, after) => (b :: body, after)

/-! ### Decoding -/

/-- The number of a hexadecimal digit in either case. -/
def hexValue? (b : UInt8) : Option Nat :=
  if Ascii.isDigit b then some (b.toNat - 0x30)
  else if 0x61 ≤ b ∧ b ≤ 0x66 then some (b.toNat - 0x57)
  else if 0x41 ≤ b ∧ b ≤ 0x46 then some (b.toNat - 0x37)
  else none

/-- The number that four hexadecimal digits stand for. -/
def unit? (a b c d : UInt8) : Option Nat := do
  return (((← hexValue? a) * 16 + (← hexValue? b)) * 16 + (← hexValue? c)) * 16 + (← hexValue? d)

/-- The byte that a letter behind a backslash stands for. -/
def shortEscape? (b : UInt8) : Option UInt8 :=
  if b = Ascii.quote ∨ b = Ascii.backslash ∨ b = Ascii.slash then some b
  else if b = 0x62 then some 0x08
  else if b = 0x66 then some 0x0C
  else if b = 0x6E then some Ascii.lineFeed
  else if b = 0x72 then some Ascii.carriageReturn
  else if b = 0x74 then some Ascii.tab
  else none

/-- Part of a quoted string: a byte that stands for itself or behind a backslash, or a UTF-16
unit. -/
inductive Piece
  | byte (b : UInt8)
  | unit (n : Nat)
  deriving DecidableEq, Repr

/-- The pieces of what stands between quotes; none if a raw byte below 32 or an unknown escape
occurs. -/
def pieces : Bytes → Option (List Piece)
  | [] => some []
  | b :: rest =>
    if b < 0x20 then none
    else if b = Ascii.backslash then
      match rest with
      | [] => none
      | e :: rest =>
        if e = Ascii.lowerU then
          match rest with
          | h₁ :: h₂ :: h₃ :: h₄ :: rest => do
            let n ← unit? h₁ h₂ h₃ h₄
            let tail ← pieces rest
            return .unit n :: tail
          | _ => none
        else do
          let c ← shortEscape? e
          let tail ← pieces rest
          return .byte c :: tail
    else do
      let tail ← pieces rest
      return .byte b :: tail

/-- Holds of the first unit of a surrogate pair. -/
def isHighSurrogate (n : Nat) : Bool :=
  0xD800 ≤ n && n ≤ 0xDBFF

/-- Holds of the second unit of a surrogate pair. -/
def isLowSurrogate (n : Nat) : Bool :=
  0xDC00 ≤ n && n ≤ 0xDFFF

/-- The bytes that pieces stand for; none if a surrogate is without its partner. -/
def assemble : List Piece → Option Bytes
  | [] => some []
  | .byte b :: rest => (assemble rest).map (b :: ·)
  | .unit n :: rest =>
    if isHighSurrogate n then
      match rest with
      | .unit m :: rest =>
        if isLowSurrogate m then
          (assemble rest).map (Utf8.encode (0x10000 + (n - 0xD800) * 0x400 + (m - 0xDC00)) ++ ·)
        else none
      | _ => none
    else if isLowSurrogate n then none
    else (assemble rest).map (Utf8.encode n ++ ·)

/-- The string that stands between quotes; none if it is no well-formed UTF-8 or breaks the rules of
escapes. -/
def decode (body : Bytes) : Option Bytes :=
  if Utf8.isWellFormed body then (pieces body).bind assemble else none

/-- Takes a string off that follows an opening quote. -/
def scan (s : Bytes) : Option (Bytes × Bytes) :=
  (split s).bind fun (body, rest) => (decode body).map fun decoded => (decoded, rest)

end FieldRules.Quoted

import FieldRules.Text.Basic

/-!
# UTF-8

* `Utf8.isWellFormed` holds of the byte strings that are the UTF-8 form of some characters.
* `Utf8.encode` is the UTF-8 form of one character, given by its number.

A state of the check is the list of byte ranges that the character begun still owes.
-/

namespace FieldRules.Utf8

/-- A range of bytes, both ends included. -/
abbrev ByteRange := UInt8 × UInt8

/-- The range of all continuation bytes. -/
def continuation : ByteRange := (0x80, 0xBF)

/-- The ranges that the bytes after a first byte lie in, or none if no character begins with it.
Overlong forms, surrogates and numbers above the last character are kept out by the range of the
second byte. -/
def owedAfter (first : UInt8) : Option (List ByteRange) :=
  if first ≤ 0x7F then some []
  else if first < 0xC2 then none
  else if first ≤ 0xDF then some [continuation]
  else if first = 0xE0 then some [(0xA0, 0xBF), continuation]
  else if first = 0xED then some [(0x80, 0x9F), continuation]
  else if first ≤ 0xEF then some [continuation, continuation]
  else if first = 0xF0 then some [(0x90, 0xBF), continuation, continuation]
  else if first ≤ 0xF3 then some [continuation, continuation, continuation]
  else if first = 0xF4 then some [(0x80, 0x8F), continuation, continuation]
  else none

/-- The ranges owed after one more byte, or none if the byte cannot stand there. -/
def step : List ByteRange → UInt8 → Option (List ByteRange)
  | [], b => owedAfter b
  | (low, high) :: owed, b => if low ≤ b ∧ b ≤ high then some owed else none

/-- The ranges owed after a byte string, or none if some byte could not stand where it does. -/
def run : List ByteRange → Bytes → Option (List ByteRange)
  | owed, [] => some owed
  | owed, b :: rest => (step owed b).bind (run · rest)

/-- Holds if the bytes are whole characters in UTF-8. -/
def isWellFormed (s : Bytes) : Bool :=
  run [] s == some []

@[simp] theorem run_nil (owed : List ByteRange) : run owed [] = some owed := rfl

@[simp] theorem run_cons (owed : List ByteRange) (b : UInt8) (rest : Bytes) :
    run owed (b :: rest) = (step owed b).bind (run · rest) := rfl

theorem run_append (owed : List ByteRange) (s t : Bytes) :
    run owed (s ++ t) = (run owed s).bind (run · t) := by
  induction s generalizing owed with
  | nil => rfl
  | cons b s ih =>
    simp only [List.cons_append, run_cons]
    cases step owed b with
    | none => rfl
    | some owed => exact ih owed

/-- The UTF-8 form of the character with this number. -/
def encode (character : Nat) : Bytes :=
  String.utf8EncodeChar (Char.ofNat character)

end FieldRules.Utf8

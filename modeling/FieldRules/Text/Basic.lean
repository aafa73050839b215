/-!
# Byte strings

Every text of this library is a list of bytes, valid UTF-8 or not.

* `utf8` gives the bytes of a string.
* `Bytes.order` compares two byte strings by unsigned bytes.
* `Bytes.joinWith` puts a separator between byte strings, `Bytes.splitOn` cuts a byte string at a
  separator.
* `Bytes.dropPrefix?` takes a known start away.

Main statement: `splitOn_append`, a separator keeps the parts on its two sides apart.
-/

namespace FieldRules

/-- A text as its bytes. -/
abbrev Bytes := List UInt8

/-- The bytes of a string in UTF-8. -/
def utf8 (s : String) : Bytes :=
  s.toList.flatMap String.utf8EncodeChar

namespace Bytes

/-! ### Order -/

/-- The order of two byte strings: the first byte in which they differ decides, and a proper start
comes first. -/
def order (a b : Bytes) : Ordering :=
  compareOfLessAndEq a b

@[simp] theorem order_self (a : Bytes) : order a a = .eq := by
  simp [order, compareOfLessAndEq]

theorem order_eq_eq_iff {a b : Bytes} : order a b = .eq ↔ a = b := by
  refine ⟨fun h => ?_, fun h => h ▸ order_self a⟩
  unfold order compareOfLessAndEq at h
  split at h
  · simp at h
  · split at h
    · assumption
    · simp at h

theorem order_eq_lt_iff {a b : Bytes} : order a b = .lt ↔ a < b := by
  unfold order compareOfLessAndEq
  split
  · simp_all
  · split <;> simp_all

/-! ### Separators and starts -/

/-- The byte strings one after the other, with a separator between neighbours. -/
def joinWith (separator : Bytes) : List Bytes → Bytes
  | [] => []
  | [a] => a
  | a :: b :: rest => a ++ separator ++ joinWith separator (b :: rest)

@[simp] theorem joinWith_nil (separator : Bytes) : joinWith separator [] = [] := rfl

@[simp] theorem joinWith_singleton (separator a : Bytes) : joinWith separator [a] = a := rfl

@[simp] theorem joinWith_cons_cons (separator a b : Bytes) (rest : List Bytes) :
    joinWith separator (a :: b :: rest) = a ++ separator ++ joinWith separator (b :: rest) := rfl

/-- The parts of a byte string between separators; one with `n` separators has `n + 1` parts. -/
def splitOn (separator : UInt8) : Bytes → List Bytes
  | [] => [[]]
  | b :: rest =>
    if b = separator then [] :: splitOn separator rest
    else
      match splitOn separator rest with
      | [] => [[b]]
      | part :: others => (b :: part) :: others

@[simp] theorem splitOn_nil (separator : UInt8) : splitOn separator [] = [[]] := rfl

@[simp] theorem splitOn_cons_self (separator : UInt8) (rest : Bytes) :
    splitOn separator (separator :: rest) = [] :: splitOn separator rest := by
  simp [splitOn]

theorem splitOn_ne_nil (separator : UInt8) (s : Bytes) : splitOn separator s ≠ [] := by
  cases s with
  | nil => simp
  | cons b rest =>
    rw [splitOn]
    split
    · simp
    · split <;> simp

theorem splitOn_append (separator : UInt8) (a b : Bytes) :
    splitOn separator (a ++ separator :: b) = splitOn separator a ++ splitOn separator b := by
  induction a with
  | nil => simp
  | cons x a ih =>
    simp only [List.cons_append, splitOn, ih]
    split
    · simp
    · cases h : splitOn separator a with
      | nil => exact absurd h (splitOn_ne_nil separator a)
      | cons part others => simp

/-- What follows `start` at the beginning of a byte string, if it begins so. -/
def dropPrefix? : (start text : Bytes) → Option Bytes
  | [], text => some text
  | _ :: _, [] => none
  | a :: start, b :: text => if a = b then dropPrefix? start text else none

@[simp] theorem dropPrefix?_nil (text : Bytes) : dropPrefix? [] text = some text := by
  cases text <;> rfl

@[simp] theorem dropPrefix?_append (start text : Bytes) :
    dropPrefix? start (start ++ text) = some text := by
  induction start with
  | nil => simp
  | cons a start ih => simp [dropPrefix?, ih]

/-- What is left after a start follows exactly that start. -/
theorem dropPrefix?_eq_some_iff {start text rest : Bytes} :
    dropPrefix? start text = some rest ↔ text = start ++ rest := by
  refine ⟨fun h => ?_, fun h => h ▸ dropPrefix?_append start rest⟩
  induction start generalizing text with
  | nil => simpa using h
  | cons a start ih =>
    cases text with
    | nil => simp [dropPrefix?] at h
    | cons b text =>
      by_cases hab : a = b
      · simp only [dropPrefix?, hab, if_true] at h
        simp [hab, ih h]
      · simp [dropPrefix?, hab] at h

end Bytes

end FieldRules

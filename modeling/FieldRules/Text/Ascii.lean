/-!
# ASCII bytes

The bytes with a role of their own, and the classes of bytes. A byte of 128 or more is in none of
the classes.

* `isSpace`, `isDigit`, `isUpper`, `isLower`, `isAlphanumeric` are the classes.
* `toLower` folds the case of letters and keeps every other byte.
-/

namespace FieldRules.Ascii

/-! ### Bytes by name -/

abbrev tab : UInt8 := 0x09
abbrev lineFeed : UInt8 := 0x0A
abbrev carriageReturn : UInt8 := 0x0D
abbrev space : UInt8 := 0x20
abbrev exclamation : UInt8 := 0x21
abbrev quote : UInt8 := 0x22
abbrev plus : UInt8 := 0x2B
abbrev comma : UInt8 := 0x2C
abbrev minus : UInt8 := 0x2D
abbrev dot : UInt8 := 0x2E
abbrev slash : UInt8 := 0x2F
abbrev zero : UInt8 := 0x30
abbrev colon : UInt8 := 0x3A
abbrev less : UInt8 := 0x3C
abbrev equals : UInt8 := 0x3D
abbrev greater : UInt8 := 0x3E
abbrev upperE : UInt8 := 0x45
abbrev openBracket : UInt8 := 0x5B
abbrev backslash : UInt8 := 0x5C
abbrev closeBracket : UInt8 := 0x5D
abbrev underscore : UInt8 := 0x5F
abbrev lowerE : UInt8 := 0x65
abbrev lowerU : UInt8 := 0x75
abbrev openBrace : UInt8 := 0x7B
abbrev closeBrace : UInt8 := 0x7D

/-! ### Classes -/

/-- White space: tab, line feed, vertical tab, form feed, carriage return and space. -/
def isSpace (b : UInt8) : Bool :=
  (0x09 ≤ b && b ≤ 0x0D) || b == space

/-- The digits `0` to `9`. -/
def isDigit (b : UInt8) : Bool :=
  0x30 ≤ b && b ≤ 0x39

/-- The letters `A` to `Z`. -/
def isUpper (b : UInt8) : Bool :=
  0x41 ≤ b && b ≤ 0x5A

/-- The letters `a` to `z`. -/
def isLower (b : UInt8) : Bool :=
  0x61 ≤ b && b ≤ 0x7A

/-- Letters and digits. -/
def isAlphanumeric (b : UInt8) : Bool :=
  isDigit b || isUpper b || isLower b

/-! ### Case -/

/-- The lower-case letter of an upper-case one; any other byte is kept. -/
def toLower (b : UInt8) : UInt8 :=
  if isUpper b then b + 0x20 else b

theorem toLower_of_isUpper {b : UInt8} (h : isUpper b = true) : toLower b = b + 0x20 := by
  simp [toLower, h]

theorem toLower_of_not_isUpper {b : UInt8} (h : isUpper b = false) : toLower b = b := by
  simp [toLower, h]

end FieldRules.Ascii

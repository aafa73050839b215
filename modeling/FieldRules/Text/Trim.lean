import FieldRules.Text.Basic
import FieldRules.Text.Ascii

/-!
# Trimming

* `Bytes.trimStart` and `Bytes.trimEnd` take the white space off one end of a byte string.
* `Bytes.trim` takes it off both ends.
-/

namespace FieldRules.Bytes

/-- A byte string without the white space it begins with. -/
def trimStart (s : Bytes) : Bytes :=
  s.dropWhile Ascii.isSpace

/-- A byte string without the white space it ends with. -/
def trimEnd (s : Bytes) : Bytes :=
  (s.reverse.dropWhile Ascii.isSpace).reverse

/-- A byte string without the white space at its ends. -/
def trim (s : Bytes) : Bytes :=
  (trimStart s).trimEnd

@[simp] theorem trimStart_nil : trimStart [] = [] := rfl

@[simp] theorem trimEnd_nil : trimEnd [] = [] := rfl

@[simp] theorem trim_nil : trim [] = [] := rfl

end FieldRules.Bytes

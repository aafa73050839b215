import FieldRules.Json.Basic
import FieldRules.Json.Quoted
import FieldRules.Binary64.Layout

/-!
# Writing JSON

* `Json.write` is the compact text of a value: no white space, members in the order of their keys.
-/

namespace FieldRules.Json

variable [DoublePrinter]

mutual

/-- The compact text of a value. -/
def write : Json → Bytes
  | .null => utf8 "null"
  | .bool true => utf8 "true"
  | .bool false => utf8 "false"
  | .integer n => Numeral.ofInt n
  | .double x => x.jsonText
  | .string s => Quoted.write s
  | .array items => Ascii.openBracket :: Bytes.joinWith [Ascii.comma] (writeItems items) ++
      [Ascii.closeBracket]
  | .object members => Ascii.openBrace :: Bytes.joinWith [Ascii.comma] (writeMembers members) ++
      [Ascii.closeBrace]

/-- The texts of the values of an array. -/
def writeItems : List Json → List Bytes
  | [] => []
  | item :: rest => write item :: writeItems rest

/-- The texts of the members of an object. -/
def writeMembers : List (Bytes × Json) → List Bytes
  | [] => []
  | (key, value) :: rest => (Quoted.write key ++ Ascii.colon :: write value) :: writeMembers rest

end

@[simp] theorem write_array (items : List Json) :
    write (.array items) = Ascii.openBracket :: Bytes.joinWith [Ascii.comma] (writeItems items) ++
      [Ascii.closeBracket] := by
  rw [write]

theorem write_object (members : List (Bytes × Json)) :
    write (.object members) =
      Ascii.openBrace :: Bytes.joinWith [Ascii.comma] (writeMembers members) ++
        [Ascii.closeBrace] := by
  rw [write]

@[simp] theorem writeItems_eq_map (items : List Json) : writeItems items = items.map write := by
  induction items with
  | nil => rw [writeItems]; rfl
  | cons item rest ih => rw [writeItems, ih]; rfl

@[simp] theorem writeMembers_eq_map (members : List (Bytes × Json)) :
    writeMembers members = members.map fun member => Quoted.write member.1 ++ Ascii.colon ::
      write member.2 := by
  induction members with
  | nil => rw [writeMembers]; rfl
  | cons member rest ih => obtain ⟨key, value⟩ := member; rw [writeMembers, ih]; rfl

end FieldRules.Json

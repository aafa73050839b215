import FieldRules.Json.Basic

/-!
# Decoding JSON values

* `Json.asArray`, `Json.asString` and `Json.asStrings` take a value for what it should be.
* `Json.WrongKind` is the error if it is something else.
-/

namespace FieldRules.Json

/-- A value of another kind than expected. -/
structure WrongKind where
  expected : Kind
  found : Kind
  deriving DecidableEq, Repr

/-- The message on a value of another kind than expected. -/
def WrongKind.message (error : WrongKind) : Bytes :=
  utf8 "[json.exception.type_error.302] type must be " ++ error.expected.name ++
    utf8 ", but is " ++ error.found.name

/-- The items of an array. -/
def asArray : Json → Except WrongKind (List Json)
  | .array items => .ok items
  | value => .error ⟨.array, value.kind⟩

/-- The bytes of a string. -/
def asString : Json → Except WrongKind Bytes
  | .string s => .ok s
  | value => .error ⟨.string, value.kind⟩

/-- The strings of an array of strings; the first item that is no string is the error. -/
def asStrings (value : Json) : Except WrongKind (List Bytes) := do
  (← value.asArray).mapM asString

/-- The array of the given strings. -/
def ofStrings (strings : List Bytes) : Json :=
  .array (strings.map .string)

@[simp] theorem mapM_asString_map_string (strings : List Bytes) :
    (strings.map Json.string).mapM asString = .ok strings := by
  induction strings with
  | nil => rfl
  | cons s rest ih => simp [List.mapM_cons, ih, asString]; rfl

@[simp] theorem asStrings_ofStrings (strings : List Bytes) :
    asStrings (ofStrings strings) = .ok strings := by
  exact mapM_asString_map_string strings

end FieldRules.Json

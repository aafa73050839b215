import FieldRules.Binary64.Basic
import FieldRules.Text.Basic

/-!
# JSON values

* `Json` is a JSON value. Whole numbers and binary64 numbers are kept apart; strings are bytes.
* `Json.Kind` is the kind of a value with its name.
* `Json.ofMembers` builds an object with its keys in order, the last of equal keys deciding.
* `Json.find?` looks a member up.
-/

namespace FieldRules

/-- A JSON value. The members of an object are in increasing order of their keys. -/
inductive Json
  | null
  | bool (b : Bool)
  | integer (n : Int)
  | double (x : Binary64)
  | string (s : Bytes)
  | array (items : List Json)
  | object (members : List (Bytes × Json))

namespace Json

instance : Inhabited Json := ⟨.null⟩

/-! ### Equality -/

mutual

/-- Tells whether two values are the same. -/
def beq : Json → Json → Bool
  | .null, .null => true
  | .bool a, .bool b => a == b
  | .integer m, .integer n => m == n
  | .double x, .double y => x == y
  | .string s, .string t => s == t
  | .array items, .array others => beqItems items others
  | .object members, .object others => beqMembers members others
  | _, _ => false

/-- Tells whether two lists of values are the same. -/
def beqItems : List Json → List Json → Bool
  | [], [] => true
  | item :: rest, other :: others => beq item other && beqItems rest others
  | _, _ => false

/-- Tells whether two lists of members are the same. -/
def beqMembers : List (Bytes × Json) → List (Bytes × Json) → Bool
  | [], [] => true
  | (key, value) :: rest, (name, other) :: others => key == name && beq value other &&
      beqMembers rest others
  | _, _ => false

end

mutual

theorem beq_iff_eq : ∀ a b : Json, beq a b = true ↔ a = b
  | .null, b => by cases b <;> simp [beq]
  | .bool _, b => by cases b <;> simp [beq]
  | .integer _, b => by cases b <;> simp [beq]
  | .double _, b => by cases b <;> simp [beq]
  | .string _, b => by cases b <;> simp [beq]
  | .array items, b => by cases b <;> simp [beq, beqItems_iff_eq items]
  | .object members, b => by cases b <;> simp [beq, beqMembers_iff_eq members]

theorem beqItems_iff_eq : ∀ items others : List Json, beqItems items others = true ↔ items = others
  | [], others => by cases others <;> simp [beqItems]
  | item :: rest, others => by
      cases others <;> simp [beqItems, beq_iff_eq item, beqItems_iff_eq rest]

theorem beqMembers_iff_eq :
    ∀ members others : List (Bytes × Json), beqMembers members others = true ↔ members = others
  | [], others => by cases others <;> simp [beqMembers]
  | (key, value) :: rest, others => by
    cases others <;> simp [beqMembers, beq_iff_eq value, beqMembers_iff_eq rest,
      Prod.ext_iff, and_assoc]

end

instance : DecidableEq Json := fun a b => decidable_of_iff _ (beq_iff_eq a b)

/-! ### Kinds -/

/-- The kinds of values that messages tell apart. -/
inductive Kind
  | null
  | object
  | array
  | string
  | boolean
  | number
  deriving DecidableEq, Repr

/-- The name of a kind. -/
def Kind.name : Kind → Bytes
  | .null => utf8 "null"
  | .object => utf8 "object"
  | .array => utf8 "array"
  | .string => utf8 "string"
  | .boolean => utf8 "boolean"
  | .number => utf8 "number"

/-- The kind of a value. -/
def kind : Json → Kind
  | .null => .null
  | .bool _ => .boolean
  | .integer _ => .number
  | .double _ => .number
  | .string _ => .string
  | .array _ => .array
  | .object _ => .object

/-- Holds of objects. -/
def isObject (value : Json) : Bool :=
  value.kind == .object

/-! ### Members -/

/-- Members with one more set: it takes its place in the order of the keys, or that of the member
with its key. -/
def insertMember (key : Bytes) (value : Json) : List (Bytes × Json) → List (Bytes × Json)
  | [] => [(key, value)]
  | (other, found) :: rest =>
    match Bytes.order key other with
    | .lt => (key, value) :: (other, found) :: rest
    | .eq => (key, value) :: rest
    | .gt => (other, found) :: insertMember key value rest

/-- The object that comes of setting members one after the other. -/
def ofMembers (members : List (Bytes × Json)) : Json :=
  .object (members.foldl (fun object member => insertMember member.1 member.2 object) [])

/-- The value of the member with the given key; a value that is no object has no members. -/
def find? (key : Bytes) : Json → Option Json
  | .object members => members.lookup key
  | _ => none

/-- The members of an array, or the value itself if it is no array. -/
def elements : Json → List Json
  | .array items => items
  | value => [value]

@[simp] theorem elements_array (items : List Json) : elements (.array items) = items := rfl

@[simp] theorem find?_object (key : Bytes) (members : List (Bytes × Json)) :
    find? key (.object members) = members.lookup key := rfl

@[simp] theorem insertMember_nil (key : Bytes) (value : Json) :
    insertMember key value [] = [(key, value)] := rfl

theorem lookup_insertMember (key : Bytes) (value : Json) (members : List (Bytes × Json))
    (name : Bytes) :
    (insertMember key value members).lookup name = if name = key then some value else
      members.lookup name := by
  have lookup_key (k : Bytes) (v : Json) (rest : List (Bytes × Json)) :
      List.lookup name ((k, v) :: rest) = if name = k then some v else rest.lookup name := by
    by_cases h : name = k
    · simp [h]
    · have : (name == k) = false := by simpa using h
      simp [List.lookup_cons, h, this]
  induction members with
  | nil => simp [lookup_key]
  | cons member rest ih =>
    obtain ⟨other, found⟩ := member
    simp only [insertMember]
    split
    · simp [lookup_key]
    · next heq =>
      have : key = other := Bytes.order_eq_eq_iff.1 heq
      subst this
      by_cases h : name = key <;> simp [lookup_key, h]
    · next hgt =>
      have hne : key ≠ other := by
        rintro rfl
        simp at hgt
      by_cases h : name = other
      · simp [h, Ne.symm hne]
      · simp [lookup_key, h, ih]

end Json

end FieldRules

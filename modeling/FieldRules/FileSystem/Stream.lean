import FieldRules.Json.Source

/-!
# Files that are open

* `InputStream` is a file that was opened for reading, at a place in it.
* `InputStream.text` is all of its text, copied byte by byte.
* A stream is a source of documents, too.

Main statement: `InputStream.parse_eq`, what is read from a stream is read from its text.
-/

namespace FieldRules

/-- A file that is open, with the bytes that are still to come. -/
structure InputStream where
  rest : Bytes
  deriving DecidableEq, Repr

namespace InputStream

/-- The byte at the place of a stream. -/
def peek? (stream : InputStream) : Option UInt8 :=
  stream.rest.head?

/-- A stream one byte further on. -/
def advance (stream : InputStream) : InputStream :=
  ⟨stream.rest.tail⟩

/-- The bytes of a stream from its place on, up to a number of them. -/
def copy : Nat → InputStream → Bytes
  | 0, _ => []
  | count + 1, stream =>
    match stream.peek? with
    | none => []
    | some b => b :: copy count stream.advance

/-- The text of a stream. -/
def text (stream : InputStream) : Bytes :=
  copy stream.rest.length stream

/-- Documents are read from a stream byte by byte, each byte being taken off it. -/
instance : Json.Source InputStream where
  next? stream := stream.peek?.map fun b => (b, stream.advance)
  size stream := stream.rest.length

theorem copy_eq (bytes : Bytes) : copy bytes.length ⟨bytes⟩ = bytes := by
  induction bytes with
  | nil => rfl
  | cons b bytes ih => exact congrArg (b :: ·) ih

theorem text_eq (stream : InputStream) : stream.text = stream.rest :=
  copy_eq stream.rest

theorem take_eq (bytes : Bytes) : Json.Source.take bytes.length (InputStream.mk bytes) = bytes := by
  induction bytes with
  | nil => rfl
  | cons b bytes ih => exact congrArg (b :: ·) ih

/-- What is read from a stream is read from its text. -/
theorem parse_eq (stream : InputStream) : Json.parse stream = Json.read stream.text := by
  rw [text_eq, Json.parse]
  exact congrArg Json.read (take_eq stream.rest)

end InputStream

end FieldRules

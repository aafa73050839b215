import FieldRules.Json.Reader

/-!
# Sources of documents

A document is read from where its bytes are, one after the other: from a text, or from a file that
is open.

* `Json.Source` is what bytes can be taken from, `Json.Source.bytes` all that it delivers.
* `Json.parse` is the value in what a source delivers.
-/

namespace FieldRules.Json

/-- What bytes can be taken from, as long as there are more of them. -/
class Source (σ : Type) where
  next? : σ → Option (UInt8 × σ)
  /-- No more bytes than this are left. -/
  size : σ → Nat

namespace Source

variable {σ : Type} [Source σ]

/-- The next bytes of a source, up to a number of them. -/
def take : Nat → σ → Bytes
  | 0, _ => []
  | count + 1, source =>
    match next? source with
    | none => []
    | some (b, rest) => b :: take count rest

/-- The bytes that a source delivers. -/
def bytes (source : σ) : Bytes :=
  take (size source) source

end Source

/-- The value in the bytes of a source. -/
def parse {σ : Type} [Source σ] (source : σ) : Except ReadError Json :=
  read (Source.bytes source)

/-! ### Texts -/

/-- A text delivers its bytes from the first on. -/
instance : Source Bytes where
  next?
    | [] => none
    | b :: rest => some (b, rest)
  size := List.length

@[simp] theorem bytes_text (text : Bytes) : Source.bytes text = text := by
  rw [Source.bytes]
  show Source.take text.length text = text
  induction text with
  | nil => rfl
  | cons b text ih => exact congrArg (b :: ·) ih

@[simp] theorem parse_text (text : Bytes) : parse text = read text := by
  rw [parse, bytes_text]

end FieldRules.Json

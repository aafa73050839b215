import FieldRules.Json.Decode
import FieldRules.Json.Source

/-!
# Documents

* `DocumentError` is a document that cannot be had, and why.
* `ReadFailure` is either such an error or a number beyond the range of binary64, which is no error
  of the document's form and is passed on as it is.
* `parseDocument` reads a document from a text.
-/

namespace FieldRules

/-- Why there is no document. -/
inductive DocumentFault
  | fileNotFound
  | isDirectory
  | cannotOpen
  | cannotList (message : Bytes)
  | malformed
  | configurationNotObject
  | wrongKind (error : Json.WrongKind)
  deriving DecidableEq, Repr

/-- The classes of faults. -/
inductive DocumentErrorKind
  | fileNotFound
  | readError
  | invalidJson
  deriving DecidableEq, Repr

namespace DocumentFault

/-- The class of a fault. -/
def kind : DocumentFault → DocumentErrorKind
  | .fileNotFound => .fileNotFound
  | .isDirectory => .readError
  | .cannotOpen => .readError
  | .cannotList _ => .readError
  | .malformed => .invalidJson
  | .configurationNotObject => .invalidJson
  | .wrongKind _ => .invalidJson

/-- The wording of a fault. -/
def detail : DocumentFault → Bytes
  | .fileNotFound => []
  | .isDirectory => utf8 "is a directory"
  | .cannotOpen => utf8 "cannot open file"
  | .cannotList message => message
  | .malformed => utf8 "<syntax error>"
  | .configurationNotObject => utf8 "configuration must be an object"
  | .wrongKind error => error.message

end DocumentFault

/-- A document that cannot be had. -/
structure DocumentError where
  fault : DocumentFault
  /-- Where the document was to come from. -/
  source : Bytes
  deriving DecidableEq, Repr

/-- The message on a document that cannot be had. -/
def DocumentErrorKind.message (source detail : Bytes) : DocumentErrorKind → Bytes
  | .fileNotFound => source ++ utf8 ": file not found"
  | .readError => source ++ utf8 ": failed to read: " ++ detail
  | .invalidJson => source ++ utf8 ": invalid JSON: " ++ detail

/-- The message on an error whose class has no name. -/
def DocumentErrorKind.unknownMessage : Bytes := utf8 "Unknown document error"

/-- The message of an error. -/
def DocumentError.describe (error : DocumentError) : Bytes :=
  error.fault.kind.message error.source error.fault.detail

/-- Why reading a document ends without one. -/
inductive ReadFailure
  | document (error : DocumentError)
  | overflow (token : Bytes)
  deriving DecidableEq, Repr

namespace ReadFailure

/-- The message on a number beyond the range of binary64. -/
def overflowMessage (token : Bytes) : Bytes :=
  utf8 "[json.exception.out_of_range.406] number overflow parsing '" ++ token ++ utf8 "'"

/-- The message of a failure. -/
def describe : ReadFailure → Bytes
  | .document error => error.describe
  | .overflow token => overflowMessage token

/-- The failure that an error in the text of a document leads to. -/
def ofReadError (source : Bytes) : Json.ReadError → ReadFailure
  | .malformed => .document ⟨.malformed, source⟩
  | .outOfRange token => .overflow token

end ReadFailure

/-- The source of a document that is given as a text. -/
def stringSource : Bytes := utf8 "<string>"

/-- Reads a document from a text. -/
def parseDocument (source text : Bytes) : Except ReadFailure Json :=
  (Json.parse text).mapError (ReadFailure.ofReadError source)

theorem parseDocument_eq (source text : Bytes) :
    parseDocument source text = (Json.read text).mapError (ReadFailure.ofReadError source) := by
  rw [parseDocument, Json.parse_text]

end FieldRules

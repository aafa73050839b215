import FieldRules.Document
import FieldRules.FileSystem.Basic
import FieldRules.FileSystem.Stream

/-!
# Reading files

* `FileSystem.checkReadable` refuses paths that name nothing or a directory.
* `FileSystem.content?` are the bytes of what can be opened, `FileSystem.open?` opens it.
* `FileSystem.readText` is the text in a file.
* `FileSystem.readDocument` is the document in a file, read while the file is.
-/

namespace FieldRules.FileSystem

/-- Refuses a path that names nothing, or a directory. -/
def checkReadable (fs : FileSystem) (path : Bytes) : Except DocumentError Unit :=
  match fs.find? path with
  | none => .error ⟨.fileNotFound, path⟩
  | some (.directory ..) => .error ⟨.isDirectory, path⟩
  | some _ => .ok ()

/-- The bytes that a path gives when it is opened. -/
def content? (fs : FileSystem) (path : Bytes) : Option Bytes :=
  (fs.find? path).bind Node.content?

/-- Opens what a path names. -/
def open? (fs : FileSystem) (path : Bytes) : Option InputStream :=
  (fs.content? path).map InputStream.mk

/-- The text of the file that a path names. -/
def readText (fs : FileSystem) (path : Bytes) : Except DocumentError Bytes := do
  fs.checkReadable path
  match fs.open? path with
  | none => .error ⟨.cannotOpen, path⟩
  | some stream => return stream.text

/-- The document in the file that a path names. -/
def readDocument (fs : FileSystem) (path : Bytes) : Except ReadFailure Json := do
  (fs.checkReadable path).mapError .document
  match fs.open? path with
  | none => .error (.document ⟨.cannotOpen, path⟩)
  | some stream => (Json.parse stream).mapError (ReadFailure.ofReadError path)

theorem checkReadable_of_content? {fs : FileSystem} {path content : Bytes}
    (h : fs.content? path = some content) : fs.checkReadable path = .ok () := by
  unfold checkReadable
  unfold content? at h
  split <;> simp_all [Node.content?]

theorem readText_eq_ok_iff {fs : FileSystem} {path content : Bytes} :
    fs.readText path = .ok content ↔ fs.content? path = some content := by
  constructor
  · intro h
    unfold readText open? at h
    cases hcheck : fs.checkReadable path with
    | error error =>
      rw [hcheck] at h
      cases h
    | ok =>
      rw [hcheck] at h
      cases hcontent : fs.content? path with
      | none =>
        rw [hcontent] at h
        cases h
      | some found =>
        rw [hcontent] at h
        cases h
        rw [InputStream.text_eq]
  · intro h
    rw [readText, open?, checkReadable_of_content? h, h]
    exact congrArg Except.ok (InputStream.text_eq ⟨content⟩)

end FieldRules.FileSystem

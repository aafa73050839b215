import FieldRules.Document
import FieldRules.FileSystem.Path

/-!
# File systems

* `Node` is a regular file, a special one or a directory of named nodes, and `Node.at?` the node
  below it at a place.
* `Node.content?` is what a node gives that is opened, `Node.refusal?` why what is below it cannot
  be listed.
* `FileSystem` is a tree of nodes with a working directory in it. The null device is in every one.
* `FileSystem.place?` is the place that a path names, `FileSystem.find?` the node there.

A place is a list of names from the root; unlike a path it has no names for the directory itself or
the one above.
-/

namespace FieldRules

/-- What a name in a directory stands for: a regular file, a special one such as a device, a pipe or
a socket, or a directory. A file has the bytes that it gives when it is opened, or none if it cannot
be. A directory has entries, and the message of the system if it refuses to list them. -/
inductive Node
  | file (content : Option Bytes)
  | special (content : Option Bytes)
  | directory (entries : List (Bytes × Node)) (refusal : Option Bytes := none)

/-- The nodes below a root, and the place of the directory that relative paths start from. -/
structure FileSystem where
  root : List (Bytes × Node) := []
  workingDirectory : List Bytes := []

namespace Node

/-- The bytes of a node that can be opened. -/
def content? : Node → Option Bytes
  | .file content => content
  | .special content => content
  | .directory .. => none

/-- The node at a place below a node. -/
def at? (node : Node) : List Bytes → Option Node
  | [] => some node
  | name :: names =>
    match node with
    | .directory entries _ =>
      match entries.lookup name with
      | some child => at? child names
      | none => none
    | _ => none

/-- The entries of the directory at a place below a node. -/
def directoryAt? (node : Node) (place : List Bytes) : Option (List (Bytes × Node)) :=
  match node.at? place with
  | some (.directory entries _) => some entries
  | _ => none

/-- The place where names lead that are followed from a place below a node. The directory above that
node is the node itself. -/
def resolve (node : Node) (place : List Bytes) : List Bytes → Option (List Bytes)
  | [] => some place
  | name :: names =>
    match node.directoryAt? place with
    | none => none
    | some entries =>
      if Path.isSelf name then resolve node place names
      else if name = Path.parentName then resolve node place.dropLast names
      else if (entries.lookup name).isSome then resolve node (place ++ [name]) names
      else none

/-- The paths of the regular files at or below a node, by their names. -/
def files : Node → List (List Bytes)
  | .file _ => [[]]
  | .special _ => []
  | .directory entries _ => entriesFiles entries
where
  /-- The paths of the regular files among entries and below them. -/
  entriesFiles : List (Bytes × Node) → List (List Bytes)
    | [] => []
    | (name, node) :: rest => (files node).map (name :: ·) ++ entriesFiles rest

/-- The message of the first directory at or below a node that refuses to list its entries. -/
def refusal? : Node → Option Bytes
  | .file _ => none
  | .special _ => none
  | .directory entries refusal => refusal.or (entriesRefusal? entries)
where
  /-- The message of the first such directory among entries and below them. -/
  entriesRefusal? : List (Bytes × Node) → Option Bytes
    | [] => none
    | (_, node) :: rest => (refusal? node).or (entriesRefusal? rest)

/-- Entries with one more set, in the place of one with the same name if there is one. -/
def setEntry (name : Bytes) (node : Node) : List (Bytes × Node) → List (Bytes × Node)
  | [] => [(name, node)]
  | (other, found) :: rest =>
    if other = name then (name, node) :: rest else (other, found) :: setEntry name node rest

@[simp] theorem at?_nil (node : Node) : node.at? [] = some node := rfl

@[simp] theorem at?_directory_cons (entries : List (Bytes × Node)) (refusal : Option Bytes)
    (name : Bytes) (names : List Bytes) :
    at? (.directory entries refusal) (name :: names) =
      (entries.lookup name).bind (at? · names) := by
  rw [at?]
  cases entries.lookup name <;> rfl

/-- A place with two parts is reached through the first. -/
theorem at?_append (node : Node) (place names : List Bytes) :
    node.at? (place ++ names) = (node.at? place).bind (at? · names) := by
  induction place generalizing node with
  | nil => rfl
  | cons name place ih =>
    cases node with
    | file content => rfl
    | special content => rfl
    | directory entries refusal =>
      simp only [List.cons_append, at?_directory_cons]
      cases entries.lookup name with
      | none => rfl
      | some child => exact ih child

@[simp] theorem files_file (content : Option Bytes) : files (.file content) = [[]] := by
  rw [files]

@[simp] theorem files_special (content : Option Bytes) : files (.special content) = [] := by
  rw [files]

theorem files_directory (entries : List (Bytes × Node)) (refusal : Option Bytes) :
    files (.directory entries refusal) =
      entries.flatMap fun entry => (files entry.2).map (entry.1 :: ·) := by
  rw [files]
  induction entries with
  | nil => rfl
  | cons entry rest ih => obtain ⟨name, node⟩ := entry; rw [files.entriesFiles, ih]; rfl

end Node

namespace FileSystem

/-- The name of the directory of devices. -/
def devicesName : Bytes := utf8 "dev"

/-- The devices that every system has: the null device, which is empty whenever it is read. -/
def devices : Node :=
  .directory [(utf8 "null", .special (some []))]

/-- The node that all others are below. -/
def rootNode (fs : FileSystem) : Node :=
  .directory (Node.setEntry devicesName devices fs.root)

/-- The place that the names of a path are followed from. -/
def start (fs : FileSystem) (path : Bytes) : List Bytes :=
  if Path.isAbsolute path then [] else fs.workingDirectory

/-- The place that a path names, if there is something. -/
def place? (fs : FileSystem) (path : Bytes) : Option (List Bytes) :=
  if Path.isValid path then fs.rootNode.resolve (fs.start path) (Path.names path) else none

/-- The node that a path names. -/
def find? (fs : FileSystem) (path : Bytes) : Option Node :=
  (fs.place? path).bind fs.rootNode.at?

end FileSystem

end FieldRules

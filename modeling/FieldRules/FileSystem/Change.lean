import FieldRules.FileSystem.Basic

/-!
# Changing a file system

* `FileSystem.makeDirectories` makes the directories of a path that are not there yet.
* `FileSystem.writeFile` and `FileSystem.makeSocket` put something at a path, and make the
  directories it lies in.
* `FileSystem.remove` takes away what is at a path.

What cannot be done is not done: only a file that can be opened is overwritten, nothing is made
below a file, and the devices stay as they are.
-/

namespace FieldRules

namespace Node

/-- Entries with the directory at a place changed. -/
def changeDirectory (change : List (Bytes × Node) → List (Bytes × Node)) :
    List Bytes → List (Bytes × Node) → List (Bytes × Node)
  | [], entries => change entries
  | name :: names, entries =>
    match entries.lookup name with
    | some (.directory inner refusal) =>
      setEntry name (.directory (changeDirectory change names inner) refusal) entries
    | _ => entries

/-- The entries of a node without the one with the given name. -/
def removeEntry (name : Bytes) (entries : List (Bytes × Node)) : List (Bytes × Node) :=
  entries.filter (·.1 != name)

end Node

namespace FileSystem

/-- A file system with the directory at a place changed. -/
def changeDirectory (fs : FileSystem) (place : List Bytes)
    (change : List (Bytes × Node) → List (Bytes × Node)) :
    FileSystem :=
  { fs with root := Node.changeDirectory change place fs.root }

/-- A file system with a node set in the directory at a place. -/
def set (fs : FileSystem) (place : List Bytes) (name : Bytes) (node : Node) : FileSystem :=
  fs.changeDirectory place (Node.setEntry name node)

/-- Follows names from a place and makes a directory wherever there is nothing; stops where there is
none to follow them from, or where a name is too long. -/
def makeFrom (fs : FileSystem) (place : List Bytes) : List Bytes → FileSystem
  | [] => fs
  | name :: names =>
    match fs.rootNode.directoryAt? place with
    | none => fs
    | some entries =>
      if Path.isSelf name then makeFrom fs place names
      else if name = Path.parentName then makeFrom fs place.dropLast names
      else if (entries.lookup name).isSome then makeFrom fs (place ++ [name]) names
      else if name.length ≤ Path.nameLimit then
        makeFrom (fs.set place name (.directory [])) (place ++ [name]) names
      else fs

/-- A file system with the directories of a path. -/
def makeDirectories (fs : FileSystem) (path : Bytes) : FileSystem :=
  if Path.isValid path then fs.makeFrom (fs.start path) (Path.names path) else fs

/-- A file system with a node at a path that names nothing yet, if the directory it is to lie in is
there. -/
def create (fs : FileSystem) (path : Bytes) (node : Node) : FileSystem :=
  let name := (Path.names path).getLast?.getD []
  if Path.isValid path && !Path.isSelf name && decide (name ≠ Path.parentName) &&
      decide (name.length ≤ Path.nameLimit) then
    match fs.rootNode.resolve (fs.start path) (Path.names path).dropLast with
    | none => fs
    | some place => fs.set place name node
  else fs

/-- A file system with a file at a path, whose content is replaced if it is there already. -/
def writeFile (fs : FileSystem) (path content : Bytes) : FileSystem :=
  let made := fs.makeDirectories (Path.parent path)
  match made.place? path with
  | none => made.create path (.file (some content))
  | some place =>
    match made.rootNode.at? place, place.getLast? with
    | some (.file (some _)), some name => made.set place.dropLast name (.file (some content))
    | _, _ => made

/-- A file system with a socket at a path, unless there is something already. -/
def makeSocket (fs : FileSystem) (path : Bytes) : FileSystem :=
  let made := fs.makeDirectories (Path.parent path)
  match made.place? path with
  | none => made.create path (.special none)
  | some _ => made

/-- A file system without what is at a path. A directory named as itself or as one above is only
emptied. -/
def remove (fs : FileSystem) (path : Bytes) : FileSystem :=
  match fs.place? path with
  | none => fs
  | some place =>
    let named := ((Path.names path).filter fun name => !name.isEmpty).getLast?.getD Path.selfName
    if Path.isSelf named || named == Path.parentName then fs.changeDirectory place fun _ => []
    else
      match place.getLast? with
      | none => fs
      | some name => fs.changeDirectory place.dropLast (Node.removeEntry name)

end FileSystem

end FieldRules

import FieldRules.Text.Basic
import FieldRules.Text.Ascii

/-!
# Paths

A path is a byte string of names with slashes between them. It ends at its first NUL byte.

* `Path.names` are the names of a path.
* `Path.isValid` holds of the paths that can name something.
* `Path.parent` and `Path.append` are the directory of a path and a path below a directory, as
  texts.
* `Path.isJson` tells the names of JSON files.
-/

namespace FieldRules.Path

/-- A path up to its first NUL byte. -/
def effective (path : Bytes) : Bytes :=
  path.takeWhile (· != 0)

/-- The length that a path has to stay below. -/
def lengthLimit : Nat := 4096

/-- The greatest length of a name. -/
def nameLimit : Nat := 255

/-- Holds of a path that can name something: one that is neither empty nor too long. -/
def isValid (path : Bytes) : Bool :=
  !(effective path).isEmpty && decide ((effective path).length < lengthLimit)

/-- The names of a path. Empty parts stand for the directory they are in, so that a path with a
slash at its end can only name a directory. -/
def names (path : Bytes) : List Bytes :=
  Bytes.splitOn Ascii.slash (effective path)

/-- The name of the directory itself. -/
def selfName : Bytes := utf8 "."

/-- The name of the directory above. -/
def parentName : Bytes := utf8 ".."

/-- Holds of a name that stands for the directory it is in. -/
def isSelf (name : Bytes) : Bool :=
  name.isEmpty || name == selfName

/-- Holds of a path that starts from the root. -/
def isAbsolute (path : Bytes) : Bool :=
  path.head? == some Ascii.slash

/-- The part of a path in front of its last name, without the slashes between them. -/
def parent (path : Bytes) : Bytes :=
  let upToName := path.reverse.dropWhile (· != Ascii.slash)
  let upToSlashes := upToName.dropWhile (· == Ascii.slash)
  if upToSlashes.isEmpty then upToName.take 1 else upToSlashes.reverse

/-- A path taken against a directory: an absolute path is kept as it is. -/
def append (directory path : Bytes) : Bytes :=
  if isAbsolute path then path
  else if directory.isEmpty || directory.getLast? == some Ascii.slash then directory ++ path
  else directory ++ Ascii.slash :: path

/-- The path of the given names below a directory. -/
def below (directory : Bytes) (names : List Bytes) : Bytes :=
  names.foldl append directory

/-- What the name of a JSON file ends with. -/
def jsonEnding : Bytes := utf8 ".json"

/-- Holds of a name that ends in `.json` with something in front of it. -/
def isJson (name : Bytes) : Bool :=
  jsonEnding.length < name.length && jsonEnding.isSuffixOf name

@[simp] theorem append_nil_left (path : Bytes) : append [] path = path := by
  simp [append]

end FieldRules.Path

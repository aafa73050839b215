import FieldRules.Configuration.Basic
import FieldRules.Validator.Lines

/-!
# Configuration files

* `FileSystem.loadRules` reads a file with one rule in each line.
* `FileSystem.loadConfiguration` reads a configuration together with its rule files.
* `Configuration.create` builds the validator of a configuration.
-/

namespace FieldRules

/-- Reads the rules of a file, one from each line that is not blank. -/
def FileSystem.loadRules (fs : FileSystem) (path : Bytes) :
    Logged (Except DocumentError (List Bytes)) :=
  match fs.readText path with
  | .error error => pure (.error error)
  | .ok text => do
    let rules := (Line.ofText text).map Line.text
    Logged.log .debug (utf8 "Loaded " ++ Numeral.ofNat rules.length ++ utf8 " rules from " ++ path)
    return .ok rules

namespace Configuration

/-- The path of a rule file: one that is relative is taken against the directory of the
configuration. -/
def ruleFilePath (path ruleFile : Bytes) : Bytes :=
  Path.append (Path.parent path) ruleFile

/-- Reads rule files in order, up to the first that cannot be read, and joins their rules. -/
def loadRuleFiles (fs : FileSystem) : List Bytes → Logged (Except DocumentError (List Bytes))
  | [] => pure (.ok [])
  | path :: rest => do
    match ← fs.loadRules path with
    | .error error => return .error error
    | .ok rules => return (← loadRuleFiles fs rest).map (rules ++ ·)

/-- Reads the configuration in a document that was read from a path. -/
def decode (path : Bytes) (document : Json) : Except DocumentError Configuration :=
  if document.isObject then (ofJson document).mapError fun error => ⟨.wrongKind error, path⟩
  else .error ⟨.configurationNotObject, path⟩

/-- A configuration with the rules of its rule files, and with the paths these were found at. -/
def resolve (fs : FileSystem) (path : Bytes) (configuration : Configuration) :
    Logged (Except DocumentError Configuration) := do
  let paths := configuration.ruleFiles.map (ruleFilePath path)
  let loaded ← loadRuleFiles fs paths
  return loaded.map fun rules =>
    { configuration with rules := configuration.rules ++ rules, ruleFiles := paths }

/-- Builds the validator of a configuration. -/
def create (configuration : Configuration) : Logged (Except ParseError Validator) :=
  Validator.create configuration.rules configuration.flags configuration.ignores

end Configuration

/-- Reads the configuration in a file and the rule files it names. -/
def FileSystem.loadConfiguration (fs : FileSystem) (path : Bytes) :
    Logged (Except ReadFailure Configuration) :=
  match fs.readDocument path with
  | .error failure => pure (.error failure)
  | .ok document =>
    match Configuration.decode path document with
    | .error error => pure (.error (.document error))
    | .ok configuration => (·.mapError .document) <$> configuration.resolve fs path

end FieldRules

import FieldRules.Json.Decode

/-!
# Configurations

* `Configuration` is what a validator is built from.
* `Configuration.toJson` and `Configuration.ofJson` are its form as a JSON object.
-/

namespace FieldRules

/-- Rules, files with more rules, flags, and names to ignore. -/
structure Configuration where
  rules : List Bytes := []
  ruleFiles : List Bytes := []
  flags : List Bytes := []
  ignores : List Bytes := []
  deriving DecidableEq, Repr

namespace Configuration

/-! ### Keys -/

/-- The member with the rules. -/
def rulesKey : Bytes := utf8 "rules"

/-- The member with the paths of rule files. -/
def ruleFilesKey : Bytes := utf8 "rule_files"

/-- The member with the flags. -/
def flagsKey : Bytes := utf8 "flags"

/-- The member with the names to ignore. -/
def ignoresKey : Bytes := utf8 "ignores"

/-! ### Form as JSON -/

/-- A configuration as an object. Rule files are left out if there are none. -/
def toJson (configuration : Configuration) : Json :=
  Json.ofMembers <|
    [(rulesKey, Json.ofStrings configuration.rules), (flagsKey, Json.ofStrings configuration.flags),
      (ignoresKey, Json.ofStrings configuration.ignores)] ++
    if configuration.ruleFiles.isEmpty then [] else
      [(ruleFilesKey, Json.ofStrings configuration.ruleFiles)]

/-- The strings of a member; an absent member has none. -/
def stringsAt (key : Bytes) (document : Json) : Except Json.WrongKind (List Bytes) :=
  match document.find? key with
  | none => .ok []
  | some value => value.asStrings

/-- The configuration that a document stands for. Members with other names do not count, and a
document that is no object has no members. -/
def ofJson (document : Json) : Except Json.WrongKind Configuration := do
  let rules ← stringsAt rulesKey document
  let ruleFiles ← stringsAt ruleFilesKey document
  let flags ← stringsAt flagsKey document
  let ignores ← stringsAt ignoresKey document
  return { rules, ruleFiles, flags, ignores }

end Configuration

end FieldRules

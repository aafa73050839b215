import FieldRules.Json.Basic
import FieldRules.Options.Basic

/-!
# Skipped elements

An element may carry annotation flags: the members of its member `flags`, set when they are `true`.

* `isSkipped` tells whether the flags of an element take it out of the evaluation.
-/

namespace FieldRules

/-- The member that holds the annotation flags of an element. -/
def flagsKey : Bytes := utf8 "flags"

/-- Holds if the flag with the given name is there and true. -/
def flagIsSet (flags : Json) (name : Bytes) : Bool :=
  match flags.find? name with
  | some (.bool true) => true
  | _ => false

/-- The annotation flags of an element, if it has an object of them. -/
def annotationFlags? (element : Json) : Option Json :=
  (element.find? flagsKey).filter Json.isObject

/-- Holds of an element that is not to be checked: some flags are selected and it has none of them
set, or it has an ignored flag set. -/
def isSkipped (options : Options) (element : Json) : Bool :=
  match annotationFlags? element with
  | none => !options.selected.isEmpty
  | some flags =>
    (!options.selected.isEmpty && !options.selected.any (flagIsSet flags)) ||
      options.ignores.any (flagIsSet flags)

end FieldRules

import FieldRules.Options.Basic
import FieldRules.ParseError
import FieldRules.Text.Trim

/-!
# Flags

* `Flag` is one flag, `Flag.ofToken` reads it.
* `Options.setFlag` takes one flag into account, `Options.ofFlags` a whole list.
-/

namespace FieldRules

/-- A flag that sets an option. -/
inductive Flag
  | missingAsPass
  | missingAsFail
  | ignoreCase
  | countLabels
  | select (name : Bytes)
  deriving DecidableEq, Repr

namespace Flag

/-- The flag under which strings compare without regard to the case of letters. -/
def ignoreCaseToken : Bytes := utf8 "ignore-case"

/-- The flag under which rules are about numbers of labels. -/
def countLabelsToken : Bytes := utf8 "count-labels"

/-- What a flag begins with that selects elements by an annotation flag; its name follows. -/
def selectStart : Bytes := utf8 "select:"

/-- Reads a flag without white space at its ends. -/
def ofToken (token : Bytes) : Except FlagFault Flag :=
  match Bytes.dropPrefix? selectStart token with
  | some name => if name.trim.isEmpty then .error .nothingSelected else .ok (.select name.trim)
  | none =>
    if token = missingAsPassToken then .ok .missingAsPass
    else if token = missingAsFailToken then .ok .missingAsFail
    else if token = ignoreCaseToken then .ok .ignoreCase
    else if token = countLabelsToken then .ok .countLabels
    else .error .unknownFlag

end Flag

namespace Options

/-- Options with one more flag set. The two flags for absent fields exclude each other. -/
def setFlag (options : Options) : Flag → Except FlagFault Options
  | .missingAsPass =>
    if options.missing = .fail then .error (.conflict missingAsFailToken) else
      .ok { options with missing := .pass }
  | .missingAsFail =>
    if options.missing = .pass then .error (.conflict missingAsPassToken) else
      .ok { options with missing := .fail }
  | .ignoreCase => .ok { options with ignoreCase := true }
  | .countLabels => .ok { options with countLabels := true }
  | .select name => .ok { options with selected := options.selected ++ [name] }

/-- Options with one more token read, and kept among the tokens. -/
def addToken (options : Options) (token : Bytes) : Except FlagFault Options := do
  let changed ← options.setFlag (← Flag.ofToken token)
  return { changed with tokens := changed.tokens ++ [token] }

/-- Options with more flags read, the first of them having the given place; the error tells the
place of the first flag that is refused. -/
def addFlags (options : Options) (index : Nat) : List Bytes → Except ParseError Options
  | [] => .ok options
  | text :: rest => do
    let changed ← (options.addToken text.trim).mapError fun fault => ⟨.flag fault, text.trim, index⟩
    changed.addFlags (index + 1) rest

/-- The options that a list of flags sets. -/
def ofFlags (flags : List Bytes) : Except ParseError Options :=
  addFlags {} 0 flags

@[simp] theorem ofFlags_nil : ofFlags [] = .ok {} := rfl

end Options

end FieldRules

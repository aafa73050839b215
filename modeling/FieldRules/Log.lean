import FieldRules.Text.Basic

/-!
# Log entries

* `Log.Entry` is a message with its level.
* `Logged` is a value together with the entries that were logged on the way to it.
* `Log.Sink` is where entries go: to a recorder, or printed unless their level is too low.
-/

namespace FieldRules

namespace Log

/-- How much a message matters. -/
inductive Level
  | debug
  | info
  | warning
  | severe
  deriving DecidableEq, Repr

/-- The place of a level, the least important having place zero. -/
def Level.rank : Level → Nat
  | .debug => 0
  | .info => 1
  | .warning => 2
  | .severe => 3

/-- The name of a level. -/
def Level.name : Level → Bytes
  | .debug => utf8 "DEBUG"
  | .info => utf8 "INFO"
  | .warning => utf8 "WARNING"
  | .severe => utf8 "SEVERE"

/-- A message with its level. -/
structure Entry where
  level : Level
  message : Bytes
  deriving DecidableEq, Repr

/-- An entry as a line of text. -/
def Entry.line (entry : Entry) : Bytes :=
  utf8 "[" ++ entry.level.name ++ utf8 "] " ++ entry.message ++ utf8 "\n"

/-- Where entries go. A recorder keeps all of them, a console prints those that have at least a
given level. -/
inductive Sink
  | recorder
  | console (minimum : Level)
  deriving DecidableEq, Repr

namespace Sink

/-- The entries that a sink keeps. -/
def recorded : Sink → List Entry → List Entry
  | .recorder, entries => entries
  | .console _, _ => []

/-- The text that a sink prints. -/
def printed : Sink → List Entry → Bytes
  | .recorder, _ => []
  | .console minimum, entries =>
    (entries.filter fun entry => minimum.rank ≤ entry.level.rank).flatMap Entry.line

end Sink

end Log

/-- A value with the entries logged on the way to it. -/
structure Logged (α : Type) where
  value : α
  entries : List Log.Entry := []

namespace Logged

instance : Monad Logged where
  pure value := { value }
  bind first next := ⟨(next first.value).value, first.entries ++ (next first.value).entries⟩

/-- Two values that were come to alike are the same, entries included. -/
@[ext] theorem ext {α : Type} {first second : Logged α} (hvalue : first.value = second.value)
    (hentries : first.entries = second.entries) : first = second := by
  cases first
  cases second
  cases hvalue
  cases hentries
  rfl

/-- Logs one message. -/
def log (level : Log.Level) (message : Bytes) : Logged Unit :=
  ⟨(), [⟨level, message⟩]⟩

@[simp] theorem value_pure {α : Type} (a : α) : (pure a : Logged α).value = a := rfl

@[simp] theorem entries_pure {α : Type} (a : α) : (pure a : Logged α).entries = [] := rfl

@[simp] theorem value_bind {α β : Type} (first : Logged α) (next : α → Logged β) :
    (first >>= next).value = (next first.value).value := rfl

@[simp] theorem entries_bind {α β : Type} (first : Logged α) (next : α → Logged β) :
    (first >>= next).entries = first.entries ++ (next first.value).entries := rfl

@[simp] theorem value_map {α β : Type} (f : α → β) (first : Logged α) :
    (f <$> first).value = f first.value := rfl

@[simp] theorem entries_map {α β : Type} (f : α → β) (first : Logged α) :
    (f <$> first).entries = first.entries := by
  change first.entries ++ [] = first.entries
  simp

end Logged

end FieldRules

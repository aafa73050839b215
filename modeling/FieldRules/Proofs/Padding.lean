import FieldRules.Options.Flag
import FieldRules.Proofs.Configuration.Loading
import FieldRules.Proofs.Text.Trim

/-!
# White space around texts

What trimming takes off does not count. Rules and flags are read alike with any white space around
them, and the rules of a file are read as the lines that they stand in.

* `Ascii.isSpace_iff`: the six bytes of white space.
* `Bytes.Pads`, `pads_trim_iff`: a text with white space around another one; of the texts inside,
  one is trimmed.
* `Rule.parse_of_pads`, `Rule.parseAll_of_pads`, `Options.ofFlags_of_pads`: rules and flags with
  white space around them.
* `Bytes.rawLines`, `map_trim_rawLines`: the lines of a text that are not blank, as they stand.
* `trim_maximal`: trimming is the only way to leave no white space at the ends, and nothing that is
  read depends on it.
-/

namespace FieldRules

/-- White space is any of six bytes. -/
theorem Ascii.isSpace_iff {b : UInt8} :
    isSpace b = true ↔ b ∈ [0x09, 0x0A, 0x0B, 0x0C, 0x0D, 0x20] := by
  simp only [isSpace, List.mem_cons, List.not_mem_nil, or_false]
  grind

namespace Bytes

variable {padded text : Bytes} {texts others : List Bytes}

/-! ### Padded texts -/

/-- Holds of a text that is another one with white space around it. -/
def Pads (padded text : Bytes) : Prop :=
  ∃ left right, IsGap left ∧ IsGap right ∧ padded = left ++ text ++ right

theorem Pads.trim_eq (h : padded.Pads text) : padded.trim = text.trim := by
  obtain ⟨left, right, hleft, hright, rfl⟩ := h
  exact trim_pad hleft hright text

/-- Of the texts that a text has white space around, one has none at its own ends. -/
theorem pads_trim_iff {middle : Bytes} :
    text.Pads middle ∧ Trimmed middle ↔ middle = text.trim := by
  constructor
  · rintro ⟨hpads, htrimmed⟩
    rw [hpads.trim_eq, trim_of_trimmed htrimmed]
  · rintro rfl
    exact ⟨exists_gaps text, trimmed_trim text⟩

theorem map_trim_of_pads (h : List.Forall₂ Pads others texts) :
    others.map trim = texts.map trim := by
  induction h with
  | nil => rfl
  | cons hpads _ ih => rw [List.map_cons, List.map_cons, hpads.trim_eq, ih]

/-! ### Lines -/

/-- The lines of a text that are not blank, as they stand. -/
def rawLines (text : Bytes) : List Bytes :=
  text.lines.filter fun line => !line.all Ascii.isSpace

theorem all_isSpace_eq (s : Bytes) : s.all Ascii.isSpace = s.trim.isEmpty := by
  rw [Bool.eq_iff_iff, List.all_eq_true, List.isEmpty_iff, trim_eq_nil_iff]
  rfl

theorem map_trim_rawLines (text : Bytes) : text.rawLines.map trim = text.filledLines := by
  rw [rawLines, filledLines, List.filter_map]
  simp only [all_isSpace_eq, Function.comp_def]

end Bytes

open Bytes

variable {texts others : List Bytes}

/-! ### Rules -/

namespace Rule

theorem parse_trim (text : Bytes) : parse text.trim = parse text := by
  rw [parse, parse, trim_trim]

/-- A rule is read alike with any white space around it, whether it is refused or not. -/
theorem parse_of_pads {padded text : Bytes} (h : padded.Pads text) : parse padded = parse text := by
  rw [← parse_trim padded, h.trim_eq, parse_trim]

theorem parseFrom_map_trim (index : Nat) (texts : List Bytes) :
    parseFrom index (texts.map trim) = parseFrom index texts := by
  induction texts generalizing index with
  | nil => rfl
  | cons text texts ih => rw [List.map_cons, parseFrom, parseFrom, parse_trim, ih]

theorem parseAll_map_trim (texts : List Bytes) : parseAll (texts.map trim) = parseAll texts :=
  parseFrom_map_trim 0 texts

theorem parseAll_of_pads (h : List.Forall₂ Pads others texts) :
    parseAll others = parseAll texts := by
  rw [← parseAll_map_trim others, map_trim_of_pads h, parseAll_map_trim]

end Rule

/-! ### Flags -/

namespace Options

theorem addFlags_map_trim (options : Options) (index : Nat) (flags : List Bytes) :
    options.addFlags index (flags.map trim) = options.addFlags index flags := by
  induction flags generalizing options index with
  | nil => rfl
  | cons text flags ih =>
    rw [List.map_cons, addFlags, addFlags, trim_trim]
    exact bind_congr_of_ok fun changed _ => ih changed (index + 1)

theorem ofFlags_map_trim (flags : List Bytes) : ofFlags (flags.map trim) = ofFlags flags :=
  addFlags_map_trim {} 0 flags

theorem ofFlags_of_pads {flags padded : List Bytes} (h : List.Forall₂ Pads padded flags) :
    ofFlags padded = ofFlags flags := by
  rw [← ofFlags_map_trim padded, map_trim_of_pads h, ofFlags_map_trim]

end Options

/-! ### Rule files -/

/-- The rules of a file are read as its lines that are not blank, each by itself and all
together. -/
theorem FileSystem.exists_loadRules {fs : FileSystem} {path content : Bytes}
    (h : fs.content? path = some content) :
    ∃ rules, (fs.loadRules path).value = .ok rules ∧
      rules.map Rule.parse = content.rawLines.map Rule.parse ∧
      Rule.parseAll rules = Rule.parseAll content.rawLines := by
  refine ⟨content.filledLines, ?_, ?_, ?_⟩
  · rw [value_loadRules, readText_eq_ok_iff.2 h]
    rfl
  · rw [← map_trim_rawLines, List.map_map]
    exact List.map_congr_left fun line _ => Rule.parse_trim line
  · rw [← map_trim_rawLines, Rule.parseAll_map_trim]

/-- Trimming leaves the one text inside of another that has nothing but white space around it and
none at its own ends: it takes off as much as there is, of six bytes and no others. Taken off again,
or put there before, white space makes no difference. Nor does it to a rule, to a list of rules or
to a list of flags, whether they are read or refused, and the rules of a file are read as the lines
of the file are that are not blank. -/
theorem trim_maximal (text : Bytes) :
    (∀ b, Ascii.isSpace b = true ↔ b ∈ [0x09, 0x0A, 0x0B, 0x0C, 0x0D, 0x20]) ∧
    (∀ middle, text.Pads middle ∧ Trimmed middle ↔ middle = text.trim) ∧
    text.trim.trim = text.trim ∧ Rule.parse text.trim = Rule.parse text ∧
    (∀ padded : Bytes, padded.Pads text → padded.trim = text.trim ∧
      Rule.parse padded = Rule.parse text) ∧
    (∀ rules : List Bytes, Rule.parseAll (rules.map trim) = Rule.parseAll rules ∧
      ∀ padded, List.Forall₂ Pads padded rules → Rule.parseAll padded = Rule.parseAll rules) ∧
    (∀ flags : List Bytes, Options.ofFlags (flags.map trim) = Options.ofFlags flags ∧
      ∀ padded, List.Forall₂ Pads padded flags → Options.ofFlags padded = Options.ofFlags flags) ∧
    ∀ (fs : FileSystem) path content, fs.content? path = some content →
      ∃ rules, (fs.loadRules path).value = .ok rules ∧
        rules.map Rule.parse = content.rawLines.map Rule.parse ∧
        Rule.parseAll rules = Rule.parseAll content.rawLines := by
  refine ⟨fun b => Ascii.isSpace_iff, fun middle => pads_trim_iff, trim_trim text,
    Rule.parse_trim text, ?_, ?_, ?_, ?_⟩
  · exact fun padded hpads => ⟨hpads.trim_eq, Rule.parse_of_pads hpads⟩
  · exact fun rules => ⟨Rule.parseAll_map_trim rules, fun padded hpads =>
      Rule.parseAll_of_pads hpads⟩
  · exact fun flags => ⟨Options.ofFlags_map_trim flags, fun padded hpads =>
      Options.ofFlags_of_pads hpads⟩
  · exact fun fs path content hfile => FileSystem.exists_loadRules hfile

/-- A NUL byte is no white space, a vertical tab and a form feed are. Flags that are refused are
refused alike, and so are the rules of a file with blank lines among them. -/
theorem trim_maximal_of_hard_texts :
    (utf8 "\x0b\n a==\x00 \x0c").trim = utf8 "a==\x00" ∧
    Rule.parse (utf8 "\x0b\n a==\x00 \x0c") = Rule.parse (utf8 "a==\x00") ∧
    Options.ofFlags [utf8 "\tselect: a\r", utf8 "what "] =
      Options.ofFlags [utf8 "select: a", utf8 "what"] ∧
    ∃ rules, (FileSystem.loadRules ⟨[(utf8 "r", .file (utf8 " a==1\r\n\n\t\nb "))],
      []⟩ (utf8 "r")).value = .ok rules ∧
      rules.map Rule.parse = [Rule.parse (utf8 " a==1\r"), Rule.parse (utf8 "b ")] := by
  have hgap {gap : Bytes} (h : gap.all Ascii.isSpace = true) : IsGap gap := List.all_eq_true.1 h
  have hpads : (utf8 "\x0b\n a==\x00 \x0c").Pads (utf8 "a==\x00") :=
    ⟨utf8 "\x0b\n ", utf8 " \x0c", hgap (by decide), hgap (by decide), by decide⟩
  have hselect : (utf8 "\tselect: a\r").Pads (utf8 "select: a") :=
    ⟨utf8 "\t", utf8 "\r", hgap (by decide), hgap (by decide), by decide⟩
  have hwhat : (utf8 "what ").Pads (utf8 "what") :=
    ⟨[], utf8 " ", isGap_nil, hgap (by decide), by decide⟩
  obtain ⟨-, hmiddle, -⟩ := trim_maximal (utf8 "\x0b\n a==\x00 \x0c")
  obtain ⟨-, -, -, -, hpadded, -, hflags, hfile⟩ := trim_maximal (utf8 "a==\x00")
  refine ⟨((hmiddle _).1 ⟨hpads, by decide, by decide⟩).symm, (hpadded _ hpads).2, ?_, ?_⟩
  · exact (hflags _).2 _ (.cons hselect (.cons hwhat .nil))
  · obtain ⟨rules, hrules, hparse, -⟩ :=
      hfile ⟨[(utf8 "r", .file (utf8 " a==1\r\n\n\t\nb "))], []⟩ (utf8 "r") _ rfl
    exact ⟨rules, hrules, hparse⟩

end FieldRules

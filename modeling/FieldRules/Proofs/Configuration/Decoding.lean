import FieldRules.Configuration.Basic
import FieldRules.Document
import FieldRules.Proofs.Json.RoundTrip

/-!
# Configurations as JSON

A configuration is written as an object and read from one. What is read depends on four members;
what is written holds no other.

* `Json.asStrings_eq_ok_iff`: the values that are arrays of strings.
* `Configuration.Lists`, `Describes`, `ofJson_eq_ok_iff`: the configuration that a document stands
  for.
* `exists_describes_iff`: the documents that stand for one.
* `toJson_eq`: the members of a configuration that is written.
* `readable_toJson`: its text can be read if its strings are UTF-8.
* `toJson_round_trip`: writing and reading in both directions.
-/

namespace FieldRules

namespace Json

variable {value : Json} {items : List Json} {strings : List Bytes}

theorem asString_eq_ok_iff {s : Bytes} : value.asString = .ok s ↔ value = .string s := by
  cases value <;> simp [asString]

theorem mapM_asString_eq_ok_iff :
    items.mapM asString = .ok strings ↔ items = strings.map .string := by
  constructor
  · intro h
    induction items generalizing strings with
    | nil =>
      cases h
      rfl
    | cons item items ih =>
      rw [List.mapM_cons] at h
      obtain ⟨s, hs, h⟩ := bind_eq_ok_iff.1 h
      obtain ⟨others, hothers, ⟨⟩⟩ := bind_eq_ok_iff.1 h
      rw [asString_eq_ok_iff.1 hs, ih hothers, List.map_cons]
  · rintro rfl
    exact mapM_asString_map_string strings

theorem asStrings_eq_ok_iff : value.asStrings = .ok strings ↔ value = ofStrings strings := by
  constructor
  · intro h
    obtain ⟨items, hitems, h⟩ := bind_eq_ok_iff.1 h
    cases value with
    | array found =>
      cases hitems
      rw [mapM_asString_eq_ok_iff.1 h, ofStrings]
    | _ => cases hitems
  · rintro rfl
    exact asStrings_ofStrings strings

theorem ofStrings_inj {others : List Bytes} :
    ofStrings strings = ofStrings others ↔ strings = others := by
  constructor
  · intro h
    have hread := asStrings_ofStrings strings
    rw [h, asStrings_ofStrings] at hread
    exact (Except.ok.inj hread).symm
  · exact congrArg ofStrings

end Json

namespace Configuration

variable {document : Json} {key : Bytes} {strings : List Bytes} {configuration : Configuration}

/-! ### Reading -/

/-- Holds of the strings that a document lists under a key; an absent member lists none. -/
def Lists (document : Json) (key : Bytes) (strings : List Bytes) : Prop :=
  (document.find? key).getD (Json.ofStrings []) = Json.ofStrings strings

theorem stringsAt_eq_ok_iff :
    stringsAt key document = .ok strings ↔ Lists document key strings := by
  rw [stringsAt, Lists]
  cases document.find? key with
  | none => simp [Json.ofStrings_inj]
  | some value => exact Json.asStrings_eq_ok_iff

/-- Holds of the configuration that a document stands for: each of its lists is that under its
key. -/
structure Describes (document : Json) (configuration : Configuration) : Prop where
  rules : Lists document rulesKey configuration.rules
  ruleFiles : Lists document ruleFilesKey configuration.ruleFiles
  flags : Lists document flagsKey configuration.flags
  ignores : Lists document ignoresKey configuration.ignores

/-- A document is read as the configuration that it stands for, if there is one. -/
theorem ofJson_eq_ok_iff :
    ofJson document = .ok configuration ↔ Describes document configuration := by
  constructor
  · intro h
    obtain ⟨rules, hrules, h⟩ := bind_eq_ok_iff.1 h
    obtain ⟨ruleFiles, hruleFiles, h⟩ := bind_eq_ok_iff.1 h
    obtain ⟨flags, hflags, h⟩ := bind_eq_ok_iff.1 h
    obtain ⟨ignores, hignores, ⟨⟩⟩ := bind_eq_ok_iff.1 h
    exact ⟨stringsAt_eq_ok_iff.1 hrules, stringsAt_eq_ok_iff.1 hruleFiles,
      stringsAt_eq_ok_iff.1 hflags,
      stringsAt_eq_ok_iff.1 hignores⟩
  · intro h
    rw [ofJson, stringsAt_eq_ok_iff.2 h.rules, stringsAt_eq_ok_iff.2 h.ruleFiles,
      stringsAt_eq_ok_iff.2 h.flags, stringsAt_eq_ok_iff.2 h.ignores]
    rfl

/-- The keys of the members that count. -/
def keys : List Bytes :=
  [rulesKey, ruleFilesKey, flagsKey, ignoresKey]

theorem exists_lists_iff : (∃ strings, Lists document key strings) ↔
    document.find? key = none ∨ ∃ strings, document.find? key = some (Json.ofStrings strings) := by
  cases hfound : document.find? key with
  | none => exact iff_of_true ⟨[], by rw [Lists, hfound]; rfl⟩ (Or.inl rfl)
  | some value => simp [Lists, hfound]

/-- A document stands for a configuration if each of the members that count is absent or an array of
strings. -/
theorem exists_describes_iff : (∃ configuration, Describes document configuration) ↔
    ∀ key ∈ keys, document.find? key = none ∨ ∃ strings,
      document.find? key = some (Json.ofStrings strings) := by
  simp only [← exists_lists_iff]
  constructor
  · rintro ⟨configuration, h⟩
    simpa [keys] using ⟨⟨_, h.rules⟩, ⟨_, h.ruleFiles⟩, ⟨_, h.flags⟩, ⟨_, h.ignores⟩⟩
  · intro h
    obtain ⟨rules, hrules⟩ := h rulesKey (by simp [keys])
    obtain ⟨ruleFiles, hruleFiles⟩ := h ruleFilesKey (by simp [keys])
    obtain ⟨flags, hflags⟩ := h flagsKey (by simp [keys])
    obtain ⟨ignores, hignores⟩ := h ignoresKey (by simp [keys])
    exact ⟨⟨rules, ruleFiles, flags, ignores⟩, hrules, hruleFiles, hflags, hignores⟩

/-! ### Writing -/

/-- The keys of the members that are written, in order. -/
def writtenKeys (configuration : Configuration) : List Bytes :=
  [flagsKey, ignoresKey] ++ (if configuration.ruleFiles = [] then [] else [ruleFilesKey]) ++
    [rulesKey]

/-- The members of a configuration that is written are in order of their keys. -/
theorem toJson_eq (configuration : Configuration) : configuration.toJson = .object (
    [(flagsKey, .ofStrings configuration.flags), (ignoresKey, .ofStrings configuration.ignores)] ++
      (if configuration.ruleFiles = [] then []
        else [(ruleFilesKey, .ofStrings configuration.ruleFiles)]) ++
      [(rulesKey, .ofStrings configuration.rules)]) := by
  have hflags : Bytes.order flagsKey rulesKey = .lt := by decide
  have hignores : Bytes.order ignoresKey flagsKey = .gt := by decide
  have hbetween : Bytes.order ignoresKey rulesKey = .lt := by decide
  have hfirst : Bytes.order ruleFilesKey flagsKey = .gt := by decide
  have hsecond : Bytes.order ruleFilesKey ignoresKey = .gt := by decide
  have hthird : Bytes.order ruleFilesKey rulesKey = .lt := by decide
  by_cases hnone : configuration.ruleFiles = [] <;>
    simp [toJson, Json.ofMembers, Json.insertMember, hnone, hflags, hignores, hbetween,
      hfirst, hsecond, hthird]

/-- A configuration is what its own object stands for, although an empty list of rule files is not
written. -/
theorem describes_toJson (configuration : Configuration) :
    Describes configuration.toJson configuration := by
  rw [toJson_eq]
  by_cases hnone : configuration.ruleFiles = []
  · rw [if_pos hnone]
    exact ⟨rfl, congrArg Json.ofStrings hnone.symm, rfl, rfl⟩
  · rw [if_neg hnone]
    exact ⟨rfl, rfl, rfl, rfl⟩

/-- Of a document that stands for a configuration, the members that count are written again, an
absent one as an empty array. -/
theorem toJson_of_describes (h : Describes document configuration) : configuration.toJson =
    .object (configuration.writtenKeys.map fun key =>
      (key, (document.find? key).getD (.ofStrings []))) := by
  rw [toJson_eq, writtenKeys, ← h.rules, ← h.ruleFiles, ← h.flags, ← h.ignores]
  by_cases hnone : configuration.ruleFiles = [] <;> simp [hnone]

/-! ### Texts -/

/-- All strings of a configuration. -/
def allStrings (configuration : Configuration) : List Bytes :=
  [configuration.rules, configuration.ruleFiles, configuration.flags, configuration.ignores].flatten

theorem readable_ofStrings {size : Nat} {strings : List Bytes} (hlength : strings.length ≤ size)
    (h : ∀ s ∈ strings, Utf8.isWellFormed s = true) : (Json.ofStrings strings).Readable size := by
  refine .array (by simpa using hlength) fun item hitem => ?_
  obtain ⟨s, hs, rfl⟩ := List.mem_map.1 hitem
  exact .string (h s hs)

/-- A configuration whose strings are UTF-8 is written as a value that can be read. -/
theorem readable_toJson (h : ∀ s ∈ configuration.allStrings, Utf8.isWellFormed s = true) :
    configuration.toJson.Readable configuration.allStrings.length := by
  have hlist (strings : List Bytes)
      (hmem : strings ∈ [configuration.rules, configuration.ruleFiles, configuration.flags,
        configuration.ignores]) :
      (Json.ofStrings strings).Readable configuration.allStrings.length := by
    have hsublist : strings.Sublist configuration.allStrings := List.sublist_flatten_of_mem hmem
    exact readable_ofStrings hsublist.length_le fun s hs => h s (hsublist.subset hs)
  obtain ⟨hrules, hruleFiles, hflags, hignores⟩ : _ ∧ _ ∧ _ ∧ _ := by simpa using hlist
  have hkeys : Utf8.isWellFormed rulesKey = true ∧ Utf8.isWellFormed flagsKey = true ∧
      Utf8.isWellFormed ignoresKey = true ∧ Utf8.isWellFormed ruleFilesKey = true := by decide
  refine Json.readable_ofMembers ?_
  by_cases hnone : configuration.ruleFiles = []
  · simpa [hnone, hkeys] using ⟨hrules, hflags, hignores⟩
  · simpa [hnone, hkeys] using ⟨hrules, hflags, hignores, hruleFiles⟩

theorem write_ofStrings [DoublePrinter] (strings : List Bytes) : (Json.ofStrings strings).write =
    Ascii.openBracket :: Bytes.joinWith [Ascii.comma] (strings.map Quoted.write) ++
      [Ascii.closeBracket] := by
  have hitems : strings.map (Json.write ∘ Json.string) = strings.map Quoted.write :=
    List.map_congr_left fun s _ => by rw [Function.comp_apply, Json.write]
  rw [Json.ofStrings, Json.write_array, Json.writeItems_eq_map, List.map_map, hitems]

/-- No number is in the text of a configuration, so that all printers write it alike. -/
theorem write_toJson (printer other : DoublePrinter) (configuration : Configuration) :
    @Json.write printer configuration.toJson = @Json.write other configuration.toJson := by
  have hmember (key : Bytes) (strings : List Bytes) :
      Quoted.write key ++ Ascii.colon :: @Json.write printer (.ofStrings strings) =
        Quoted.write key ++ Ascii.colon :: @Json.write other (.ofStrings strings) := by
    rw [@write_ofStrings printer, @write_ofStrings other]
  rw [toJson_eq, @Json.write_object printer, @Json.write_object other,
    @Json.writeMembers_eq_map printer,
    @Json.writeMembers_eq_map other]
  split_ifs <;> simp [hmember]

/-- Writing a configuration and reading it gives it back, also by way of its text if its strings are
UTF-8. Of a document that is read, the members that count are written again with their lists, an
absent one as an empty list and the rule files only if there are some, in order of their keys and
with no other members; reading that again gives the same configuration. -/
theorem toJson_round_trip [DoublePrinter] :
    (∀ configuration : Configuration, ofJson configuration.toJson = .ok configuration ∧
      ((∀ s ∈ configuration.allStrings, Utf8.isWellFormed s = true) → ∀ source,
        parseDocument source configuration.toJson.write = .ok configuration.toJson)) ∧
    ∀ (document : Json) configuration, ofJson document = .ok configuration →
      configuration.toJson =
        .object (configuration.writtenKeys.map fun key =>
          (key, (document.find? key).getD (.ofStrings []))) ∧
      ofJson configuration.toJson = .ok configuration := by
  have hback (configuration : Configuration) : ofJson configuration.toJson = .ok configuration :=
    ofJson_eq_ok_iff.2 (describes_toJson configuration)
  refine ⟨fun configuration => ⟨hback configuration, fun hstrings source => ?_⟩,
    fun document configuration hread => ?_⟩
  · rw [write_toJson _ .shortest, parseDocument_eq,
      @Json.read_write .shortest _ _ _ (readable_toJson hstrings)]
    rfl
  · exact ⟨toJson_of_describes (ofJson_eq_ok_iff.1 hread), hback configuration⟩

/-- A member that does not count and an empty list of rule files are not written again, an absent
list is. -/
theorem toJson_round_trip_of_partial_document :
    (∃ document configuration, ofJson document = .ok configuration ∧
      document = .object [(utf8 "other", .null), (ruleFilesKey, .array []),
        (rulesKey, .array [.string (utf8 "a==1")])] ∧
      configuration.toJson = .object [(flagsKey, .array []), (ignoresKey, .array []),
        (rulesKey, .array [.string (utf8 "a==1")])]) ∧
    parseDocument stringSource (toJson ⟨[utf8 "é"], [utf8 "\"\n"], [], [[]]⟩).write =
      .ok (toJson ⟨[utf8 "é"], [utf8 "\"\n"], [], [[]]⟩) := by
  obtain ⟨document, hdocument⟩ : ∃ document : Json,
      document = .object [(utf8 "other", .null), (ruleFilesKey, .array []),
      (rulesKey, .array [.string (utf8 "a==1")])] := ⟨_, rfl⟩
  have hread : ofJson document = .ok ⟨[utf8 "a==1"], [], [], []⟩ := by
    rw [hdocument]
    rfl
  refine ⟨⟨document, _, hread, hdocument, ?_⟩, (toJson_round_trip.1 _).2 (by decide) stringSource⟩
  rw [(toJson_round_trip.2 document _ hread).1, hdocument]
  rfl

end Configuration

end FieldRules

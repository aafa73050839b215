import FieldRules.Configuration.Loading
import FieldRules.Proofs.Configuration.Decoding
import FieldRules.Proofs.FileSystem.Parent
import FieldRules.Proofs.Overflow
import FieldRules.Proofs.Sequence
import FieldRules.Proofs.Text.Lines

/-!
# Loading configurations

A configuration is loaded from a file and the rule files that it names, in four steps: reading, the
form of the document, its members, the rule files. Either all of them succeed, or the first that
fails gives the error.

* `Bytes.filledLines`, `value_loadRules`: the rules in a file.
* `loadRuleFiles_eq_ok_iff`, `loadRuleFiles_eq_error_iff`: several rule files, up to the first that
  cannot be read.
* `decode_eq_ok_iff`, `of_decode_eq_error`: a document, and why it is refused.
* `FileSystem.Holds`, `readDocument_eq_document_iff`: the document in a file, and why there is none.
* `IsLoaded`, `IsFirstError`: what all steps give, and the error of the first that fails.
* `loadConfiguration_exact`: what is loaded, and what is told if nothing is.
-/

namespace FieldRules

/-- The lines of a text that are not blank, without the white space at their ends. -/
def Bytes.filledLines (text : Bytes) : List Bytes :=
  (text.lines.map Bytes.trim).filter fun line => !line.isEmpty

variable {fs : FileSystem} {path : Bytes}

namespace FileSystem

/-! ### Documents in files -/

/-- Holds of the document that is in the file with a path. -/
def Holds (fs : FileSystem) (path : Bytes) (document : Json) : Prop :=
  ∃ text, fs.content? path = some text ∧ Json.read text = .ok document

theorem readDocument_eq_ok_iff {document : Json} :
    fs.readDocument path = .ok document ↔ fs.Holds path document := by
  simp only [readDocument_eq, bind_eq_ok_iff, mapError_eq_ok_iff, readText_eq_ok_iff,
    parseDocument_eq, Holds]

/-- There is no document where there is no file that can be read, or malformed JSON in it. -/
theorem readDocument_eq_document_iff {error : DocumentError} :
    fs.readDocument path = .error (.document error) ↔
    fs.readText path = .error error ∨
      ∃ text, fs.content? path = some text ∧ Json.read text = .error .malformed ∧
        error = ⟨.malformed, path⟩ := by
  rw [readDocument_eq, bind_eq_error_iff]
  simp only [mapError_eq_ok_iff, mapError_eq_error_iff, readText_eq_ok_iff, parseDocument_eq]
  refine or_congr ?_ (exists_congr fun text => and_congr_right fun _ => ?_)
  · simp
  · cases Json.read text with
    | ok document => simp
    | error found => cases found <;> simp [ReadFailure.ofReadError, eq_comm]

theorem source_of_readText {error : DocumentError} (h : fs.readText path = .error error) :
    error.source = path := by
  rw [readText, bind_eq_error_iff] at h
  rcases h with hcheck | ⟨-, -, hopen⟩
  · unfold checkReadable at hcheck
    split at hcheck <;> cases hcheck <;> rfl
  · split at hopen <;> cases hopen
    rfl

/-! ### Rule files -/

theorem value_loadRules (fs : FileSystem) (path : Bytes) :
    (fs.loadRules path).value = (fs.readText path).map Bytes.filledLines := by
  rw [loadRules]
  cases fs.readText path with
  | error error => rfl
  | ok text =>
    show Except.ok _ = Except.ok _
    rw [Line.ofText_eq_numbered, Line.map_text_numbered]
    rfl

end FileSystem

namespace Configuration

variable {paths : List Bytes} {rules : List Bytes} {error : DocumentError}

theorem value_loadRuleFiles_cons (fs : FileSystem) (path : Bytes) (paths : List Bytes) :
    (loadRuleFiles fs (path :: paths)).value =
      (do
        let text ← fs.readText path
        let rules ← (loadRuleFiles fs paths).value
        return text.filledLines ++ rules) := by
  rw [loadRuleFiles, Logged.value_bind, FileSystem.value_loadRules]
  cases fs.readText path with
  | error error => rfl
  | ok text =>
    show (Except.map _ (loadRuleFiles fs paths).value) = (_ >>= _)
    cases (loadRuleFiles fs paths).value <;> rfl

/-- Rule files are loaded if each can be read, and give their rules in order. -/
theorem loadRuleFiles_eq_ok_iff : (loadRuleFiles fs paths).value = .ok rules ↔
    ∃ contents, List.Forall₂ (fun path content => fs.content? path = some content) paths contents ∧
      rules = contents.flatMap Bytes.filledLines := by
  induction paths generalizing rules with
  | nil => simp [loadRuleFiles, eq_comm]
  | cons path paths ih =>
    simp only [value_loadRuleFiles_cons, bind_eq_ok_iff, FileSystem.readText_eq_ok_iff, ih]
    constructor
    · rintro ⟨content, hcontent, _, ⟨contents, hcontents, rfl⟩, ⟨⟩⟩
      exact ⟨content :: contents, .cons hcontent hcontents, rfl⟩
    · rintro ⟨_, hcontents, rfl⟩
      cases hcontents with
      | cons hcontent hcontents => exact ⟨_, hcontent, _, ⟨_, hcontents, rfl⟩, rfl⟩

/-- Else the first that cannot be read gives the error. -/
theorem loadRuleFiles_eq_error_iff :
    (loadRuleFiles fs paths).value = .error error ↔
      ComesTo (fun path => ∃ content, fs.content? path = some content)
        (fun path => fs.readText path = .error error) paths := by
  induction paths with
  | nil => simp [loadRuleFiles, not_comesTo_nil]
  | cons path paths ih =>
    have hlater (content : Bytes) :
        (do let rules ← (loadRuleFiles fs paths).value; return content.filledLines ++ rules :
        Except DocumentError (List Bytes)) = .error error ↔
          (loadRuleFiles fs paths).value = .error error := by
      rw [bind_eq_error_iff, or_iff_left]
      rintro ⟨_, -, ⟨⟩⟩
    rw [value_loadRuleFiles_cons, bind_eq_error_iff, comesTo_cons]
    simp only [hlater, ih, FileSystem.readText_eq_ok_iff, exists_and_right]

theorem value_loadRuleFiles_congr {other : FileSystem}
    (h : ∀ path ∈ paths, fs.readText path = other.readText path) :
    (loadRuleFiles fs paths).value = (loadRuleFiles other paths).value := by
  induction paths with
  | nil => rfl
  | cons path paths ih =>
    obtain ⟨hpath, hpaths⟩ := List.forall_mem_cons.1 h
    rw [value_loadRuleFiles_cons, value_loadRuleFiles_cons, hpath, ih hpaths]

/-! ### Members -/

variable {document : Json} {configuration : Configuration}

theorem decode_eq_ok_iff :
    decode path document = .ok configuration ↔ document.isObject = true ∧
      Describes document configuration := by
  rw [decode]
  split_ifs with hobject <;> simp [hobject, mapError_eq_ok_iff, ofJson_eq_ok_iff]

/-- A document that is no configuration is malformed, whatever is wrong about it. -/
theorem of_decode_eq_error (h : decode path document = .error error) :
    ¬ (document.isObject = true ∧ ∃ configuration, Describes document configuration) ∧
      error.source = path ∧ error.fault.kind = .invalidJson := by
  constructor
  · rintro ⟨hobject, configuration, hdescribes⟩
    rw [decode_eq_ok_iff.2 ⟨hobject, hdescribes⟩] at h
    cases h
  · unfold decode at h
    split_ifs at h
    · obtain ⟨wrong, -, rfl⟩ := mapError_eq_error_iff.1 h
      exact ⟨rfl, rfl⟩
    · cases h
      exact ⟨rfl, rfl⟩

theorem decode_congr {other : Json} (hobject : document.isObject = other.isObject)
    (h : ∀ key ∈ keys, document.find? key = other.find? key) :
    decode path document = decode path other := by
  obtain ⟨hrules, hruleFiles, hflags, hignores⟩ : _ ∧ _ ∧ _ ∧ _ := by simpa [keys] using h
  simp only [decode, ofJson, stringsAt, hobject, hrules, hruleFiles, hflags, hignores]

theorem value_resolve (fs : FileSystem) (path : Bytes) (configuration : Configuration) :
    (configuration.resolve fs path).value =
      (loadRuleFiles fs (configuration.ruleFiles.map (ruleFilePath path))).value.map fun rules =>
        { configuration with
          rules := configuration.rules ++ rules, ruleFiles :=
            configuration.ruleFiles.map (ruleFilePath path) } := rfl

/-- A rule file is found below the directory of the configuration, unless it has an absolute
path. -/
theorem exists_ruleFilePath_eq (path : Bytes) : ∃ directory, Path.IsParent path directory ∧ ∀ file,
    (Path.isAbsolute file = true → ruleFilePath path file = file) ∧
    (Path.isAbsolute file = false → ruleFilePath path file = Path.append directory file) := by
  refine ⟨Path.parent path, Path.isParent_iff.2 rfl, fun file =>
    ⟨fun habsolute => ?_, fun _ => rfl⟩⟩
  rw [ruleFilePath, Path.append, if_pos habsolute]

/-! ### Loading -/

/-- Holds of the configuration that is in the file with a path, together with the rule files that it
names. -/
def IsLoaded (fs : FileSystem) (path : Bytes) (configuration : Configuration) : Prop :=
  ∃ document described contents, fs.Holds path document ∧ document.isObject = true ∧
    Describes document described ∧
    List.Forall₂ (fun file content => fs.content? file = some content)
      configuration.ruleFiles contents ∧
    configuration.rules = described.rules ++ contents.flatMap Bytes.filledLines ∧
    configuration.ruleFiles = described.ruleFiles.map (ruleFilePath path) ∧
    configuration.flags = described.flags ∧ configuration.ignores = described.ignores

/-- Holds of the error of the first step that fails when a configuration is loaded: reading the
file, the JSON in it, its members, the rule files. -/
inductive IsFirstError (fs : FileSystem) (path : Bytes) : DocumentError → Prop
  | text {error : DocumentError} (htext : fs.readText path = .error error)
    (hsource : error.source = path) : IsFirstError fs path error
  | malformed {text : Bytes} (htext : fs.content? path = some text)
    (hmalformed : Json.read text = .error .malformed) : IsFirstError fs path ⟨.malformed, path⟩
  | members {document : Json} {error : DocumentError} (hdocument : fs.Holds path document)
    (hmembers : ¬ (document.isObject = true ∧ ∃ configuration, Describes document configuration))
    (hdecode : decode path document = .error error) (hsource : error.source = path)
    (hkind : error.fault.kind = .invalidJson) : IsFirstError fs path error
  | ruleFile {document : Json} {described : Configuration} {error : DocumentError}
    (hdocument : fs.Holds path document) (hobject : document.isObject = true)
    (hdescribed : Describes document described)
    (hruleFile : ComesTo
      (fun file => ∃ content, fs.content? (ruleFilePath path file) = some content)
      (fun file => fs.readText (ruleFilePath path file) = .error error ∧
        error.source = ruleFilePath path file)
      described.ruleFiles) : IsFirstError fs path error

theorem value_loadConfiguration (fs : FileSystem) (path : Bytes) :
    (fs.loadConfiguration path).value =
    (do let document ← fs.readDocument path
        let configuration ← (decode path document).mapError .document
        (configuration.resolve fs path).value.mapError .document) := by
  rw [FileSystem.loadConfiguration]
  cases fs.readDocument path with
  | error failure => rfl
  | ok document =>
    dsimp only
    show _ = ((decode path document).mapError ReadFailure.document >>= _)
    cases decode path document <;> rfl

/-- A configuration is loaded if all steps succeed. -/
theorem loadConfiguration_eq_ok_iff :
    (fs.loadConfiguration path).value = .ok configuration ↔ IsLoaded fs path configuration := by
  rw [value_loadConfiguration]
  simp only [bind_eq_ok_iff, FileSystem.readDocument_eq_ok_iff, mapError_eq_ok_iff,
    decode_eq_ok_iff, value_resolve, map_eq_ok_iff, loadRuleFiles_eq_ok_iff]
  constructor
  · rintro ⟨document, hdocument, described, ⟨hobject, hdescribed⟩, _,
      ⟨contents, hcontents, rfl⟩, rfl⟩
    exact ⟨document, described, contents, hdocument, hobject, hdescribed, hcontents,
      rfl, rfl, rfl, rfl⟩
  · rintro ⟨document, described, contents, hdocument, hobject, hdescribed, hcontents, hrules,
      hruleFiles, hflags, hignores⟩
    rw [hruleFiles] at hcontents
    refine ⟨document, hdocument, described, ⟨hobject, hdescribed⟩, _,
      ⟨contents, hcontents, rfl⟩, ?_⟩
    rw [← hrules, ← hruleFiles, ← hflags, ← hignores]

/-- Else the first step that fails gives the error. -/
theorem loadConfiguration_eq_document_iff :
    (fs.loadConfiguration path).value = .error (.document error) ↔ IsFirstError fs path error := by
  rw [value_loadConfiguration]
  simp only [bind_eq_error_iff, FileSystem.readDocument_eq_document_iff,
    FileSystem.readDocument_eq_ok_iff,
    mapError_eq_ok_iff, mapError_eq_error_iff, decode_eq_ok_iff, value_resolve, map_eq_error_iff,
    loadRuleFiles_eq_error_iff, comesTo_map_iff, ReadFailure.document.injEq, exists_eq_right]
  have hsources (file : Bytes) : fs.readText file = .error error ↔ fs.readText file = .error error ∧
      error.source = file :=
    (and_iff_left_of_imp FileSystem.source_of_readText).symm
  constructor
  · rintro ((htext | ⟨text, htext, hmalformed, rfl⟩) |
      ⟨document, hdocument, hdecode | ⟨described, ⟨hobject, hdescribed⟩, h⟩⟩)
    · exact .text htext (FileSystem.source_of_readText htext)
    · exact .malformed htext hmalformed
    · obtain ⟨hmembers, hsource, hkind⟩ := of_decode_eq_error hdecode
      exact .members hdocument hmembers hdecode hsource hkind
    · exact .ruleFile hdocument hobject hdescribed ((comesTo_congr fun file => hsources _).1 h)
  · rintro (⟨htext, -⟩ | ⟨htext, hmalformed⟩ | ⟨hdocument, -, hdecode, -, -⟩ |
      ⟨hdocument, hobject, hdescribed, h⟩)
    · exact .inl (.inl htext)
    · exact .inl (.inr ⟨_, htext, hmalformed, rfl⟩)
    · exact .inr ⟨_, hdocument, .inl hdecode⟩
    · exact .inr ⟨_, hdocument,
        .inr ⟨_, ⟨hobject, hdescribed⟩, (comesTo_congr fun file => hsources _).2 h⟩⟩

/-- Where a configuration is loaded: its document is of the right form, and its rule files can be
read. -/
theorem exists_isLoaded_iff : (∃ configuration, IsLoaded fs path configuration) ↔
    ∃ document, fs.Holds path document ∧ document.isObject = true ∧
      (∀ key ∈ keys, document.find? key = none ∨ ∃ strings,
        document.find? key = some (Json.ofStrings strings)) ∧
      ∀ files, Lists document ruleFilesKey files →
        ∀ file ∈ files, ∃ content, fs.content? (ruleFilePath path file) = some content := by
  simp only [← exists_describes_iff]
  constructor
  · rintro ⟨configuration, document, described, contents, hdocument, hobject, hdescribed, hcontents,
      -, hruleFiles, -⟩
    refine ⟨document, hdocument, hobject, ⟨described, hdescribed⟩,
      fun files hfiles file hfile => ?_⟩
    have hsame : files = described.ruleFiles :=
      Json.ofStrings_inj.1 (hfiles.symm.trans hdescribed.ruleFiles)
    have hmem : ruleFilePath path file ∈ configuration.ruleFiles := by
      rw [hruleFiles]
      exact List.mem_map_of_mem (hsame ▸ hfile)
    exact exists_forall₂_iff.1 ⟨contents, hcontents⟩ _ hmem
  · rintro ⟨document, hdocument, hobject, ⟨described, hdescribed⟩, hfiles⟩
    have hpaths : ∀ file ∈ described.ruleFiles.map (ruleFilePath path), ∃ content,
        fs.content? file = some content :=
      List.forall_mem_map.2 (hfiles _ hdescribed.ruleFiles)
    obtain ⟨contents, hcontents⟩ := exists_forall₂_iff.2 hpaths
    exact ⟨⟨_, _, _, _⟩, document, described, contents, hdocument, hobject, hdescribed, hcontents,
      rfl, rfl, rfl, rfl⟩

/-- Neither the members with other keys nor other files have a part in what is loaded. -/
theorem value_loadConfiguration_congr {other : FileSystem} {otherDocument : Json}
    (hdocument : fs.Holds path document) (hother : other.Holds path otherDocument)
    (hobject : document.isObject = otherDocument.isObject)
    (hmembers : ∀ key ∈ keys, document.find? key = otherDocument.find? key)
    (hfiles : ∀ files, Lists document ruleFilesKey files → ∀ file ∈ files,
      fs.readText (ruleFilePath path file) = other.readText (ruleFilePath path file)) :
    (fs.loadConfiguration path).value = (other.loadConfiguration path).value := by
  rw [value_loadConfiguration, value_loadConfiguration,
    FileSystem.readDocument_eq_ok_iff.2 hdocument,
    FileSystem.readDocument_eq_ok_iff.2 hother]
  show ((decode path document).mapError _ >>= _) = ((decode path otherDocument).mapError _ >>= _)
  rw [← decode_congr hobject hmembers]
  refine bind_congr_of_ok fun described hdescribed => ?_
  obtain ⟨-, hdescribed⟩ := decode_eq_ok_iff.1 (mapError_eq_ok_iff.1 hdescribed)
  rw [value_resolve, value_resolve,
    value_loadRuleFiles_congr (List.forall_mem_map.2 (hfiles _ hdescribed.ruleFiles))]

end Configuration

open FieldRules.Configuration

/-- A configuration is loaded exactly if its file holds an object whose members are of the right
form, and all rule files can be read. Relative ones are found below the directory of the
configuration. What is loaded is what is written there, with the rules of the rule files behind the
others. Otherwise the first step that fails gives the error, if there is no number beyond the range
of binary64 in the file. Nothing else has a part in that. -/
theorem loadConfiguration_exact (fs : FileSystem) (path : Bytes) :
    (∀ configuration, (fs.loadConfiguration path).value = .ok configuration ↔
      IsLoaded fs path configuration) ∧
    ((∃ configuration, (fs.loadConfiguration path).value = .ok configuration) ↔
      ∃ document, fs.Holds path document ∧ document.isObject = true ∧
        (∀ key ∈ keys, document.find? key = none ∨ ∃ strings,
          document.find? key = some (Json.ofStrings strings)) ∧
        ∀ files, Lists document ruleFilesKey files →
          ∀ file ∈ files, ∃ content, fs.content? (ruleFilePath path file) = some content) ∧
    (∃ directory, Path.IsParent path directory ∧ ∀ file,
      (Path.isAbsolute file = true → ruleFilePath path file = file) ∧
      (Path.isAbsolute file = false → ruleFilePath path file = Path.append directory file)) ∧
    (∀ error, (fs.loadConfiguration path).value = .error (.document error) ↔
      IsFirstError fs path error) ∧
    ((∀ token, ¬ fs.Overflows path token) →
      (∃ configuration, (fs.loadConfiguration path).value = .ok configuration) ∨
      ∃ error, (fs.loadConfiguration path).value = .error (.document error)) ∧
    ∀ (other : FileSystem) document otherDocument, fs.Holds path document →
      other.Holds path otherDocument →
      document.isObject = otherDocument.isObject →
        (∀ key ∈ keys, document.find? key = otherDocument.find? key) →
      (∀ files, Lists document ruleFilesKey files → ∀ file ∈ files,
        fs.readText (ruleFilePath path file) = other.readText (ruleFilePath path file)) →
      (fs.loadConfiguration path).value = (other.loadConfiguration path).value := by
  refine ⟨fun configuration => loadConfiguration_eq_ok_iff, ?_, exists_ruleFilePath_eq path,
    fun error => loadConfiguration_eq_document_iff, fun hnumbers => ?_, ?_⟩
  · simp only [loadConfiguration_eq_ok_iff, exists_isLoaded_iff]
  · cases hvalue : (fs.loadConfiguration path).value with
    | ok configuration => exact .inl ⟨configuration, rfl⟩
    | error failure =>
      cases failure with
      | document error => exact .inr ⟨error, rfl⟩
      | overflow token => exact absurd (loadConfiguration_eq_overflow_iff.1 hvalue) (hnumbers token)
  · exact fun other document otherDocument hdocument hother hobject hmembers hfiles =>
      value_loadConfiguration_congr hdocument hother hobject hmembers hfiles

/-- Rules come from the document, from a file beside it and from one elsewhere; a further member
changes nothing. A rule file that is missing is told with its own path. -/
theorem loadConfiguration_exact_of_rule_files :
    ∃ (fs other : FileSystem) (document otherDocument : Json) (configuration : Configuration),
      fs.Holds (utf8 "c/f") document ∧ other.Holds (utf8 "c/f") otherDocument ∧
        document ≠ otherDocument ∧
      configuration = ⟨[utf8 "a", utf8 "b", utf8 "c", utf8 "e"], [utf8 "c/r", utf8 "/d"], [], []⟩ ∧
      (fs.loadConfiguration (utf8 "c/f")).value = .ok configuration ∧
      (other.loadConfiguration (utf8 "c/f")).value = .ok configuration ∧
      (∀ token, ¬ fs.Overflows (utf8 "c/g") token) ∧
      (∃ error, (fs.loadConfiguration (utf8 "c/g")).value = .error (.document error)) ∧
      IsFirstError fs (utf8 "c/g") ⟨.fileNotFound, utf8 "c/x"⟩ := by
  obtain ⟨document, hdocument⟩ : ∃ document : Json, document =
    .object [(ruleFilesKey, .ofStrings [utf8 "r", utf8 "/d"]), (rulesKey, .ofStrings [utf8 "a"])] :=
    ⟨_, rfl⟩
  obtain ⟨otherDocument, hotherDocument⟩ : ∃ document : Json, document =
    .object [(utf8 "more", .array [.integer 1]), (ruleFilesKey, .ofStrings [utf8 "r", utf8 "/d"]),
      (rulesKey, .ofStrings [utf8 "a"])] := ⟨_, rfl⟩
  obtain ⟨lacking, hlacking⟩ : ∃ document : Json,
    document = .object [(ruleFilesKey, .ofStrings [utf8 "r", utf8 "x"])] := ⟨_, rfl⟩
  obtain ⟨text, hread⟩ : ∃ text, Json.read text = .ok document := by
    rw [hdocument]
    exact ⟨utf8 "\x7b\"rules\":[\"a\"],\"rule_files\":[\"r\",\"/d\"]\x7d", by decide +kernel⟩
  obtain ⟨otherText, hotherRead⟩ : ∃ text, Json.read text = .ok otherDocument := by
    rw [hotherDocument]
    exact ⟨utf8 "\x7b\"rules\":[\"a\"],\"rule_files\":[\"r\",\"/d\"],\"more\":[1]\x7d",
      by decide +kernel⟩
  obtain ⟨lackingText, hlackingRead⟩ : ∃ text, Json.read text = .ok lacking := by
    rw [hlacking]
    exact ⟨utf8 "\x7b\"rule_files\":[\"r\",\"x\"]\x7d", by decide +kernel⟩
  let files (text : Bytes) : List (Bytes × Node) :=
    [(utf8 "c", .directory [(utf8 "f", .file text), (utf8 "g", .file lackingText),
      (utf8 "r", .file (utf8 "b\n\n c "))]),
      (utf8 "d", .file (utf8 "e\n"))]
  let fs : FileSystem := ⟨files text, []⟩
  let other : FileSystem := ⟨files otherText, []⟩
  have hholds : fs.Holds (utf8 "c/f") document := ⟨text, rfl, hread⟩
  have hotherHolds : other.Holds (utf8 "c/f") otherDocument := ⟨otherText, rfl, hotherRead⟩
  have hlackingHolds : fs.Holds (utf8 "c/g") lacking := ⟨lackingText, rfl, hlackingRead⟩
  obtain ⟨hloads, -, -, -, -, hrelevant⟩ := loadConfiguration_exact fs (utf8 "c/f")
  obtain ⟨-, -, -, herrors, hends, -⟩ := loadConfiguration_exact fs (utf8 "c/g")
  have hloaded : IsLoaded fs (utf8 "c/f")
      ⟨[utf8 "a", utf8 "b", utf8 "c", utf8 "e"], [utf8 "c/r", utf8 "/d"], [], []⟩ := by
    refine ⟨document, ⟨[utf8 "a"], [utf8 "r", utf8 "/d"], [], []⟩, [utf8 "b\n\n c ", utf8 "e\n"],
      hholds, ?_⟩
    rw [hdocument]
    exact ⟨rfl, ⟨rfl, rfl, rfl, rfl⟩, .cons rfl (.cons rfl .nil), rfl, rfl, rfl, rfl⟩
  have hsame : (fs.loadConfiguration (utf8 "c/f")).value =
      (other.loadConfiguration (utf8 "c/f")).value := by
    refine hrelevant other document otherDocument hholds hotherHolds ?_ ?_ fun listed hlisted => ?_
    · rw [hdocument, hotherDocument]
      rfl
    · rw [hdocument, hotherDocument]
      simp only [keys, List.forall_mem_cons]
      exact ⟨rfl, rfl, rfl, rfl, by simp⟩
    · rw [hdocument] at hlisted
      obtain rfl : [utf8 "r", utf8 "/d"] = listed := Json.ofStrings_inj.1 hlisted
      simp only [List.forall_mem_cons]
      exact ⟨rfl, rfl, by simp⟩
  have herror : IsFirstError fs (utf8 "c/g") ⟨.fileNotFound, utf8 "c/x"⟩ := by
    have hdescribes : Describes lacking ⟨[], [utf8 "r", utf8 "x"], [], []⟩ := by
      rw [hlacking]
      exact ⟨rfl, rfl, rfl, rfl⟩
    refine .ruleFile hlackingHolds (by rw [hlacking]; rfl) hdescribes ⟨[utf8 "r"], utf8 "x", [],
      rfl, ?_, rfl, rfl⟩
    exact List.forall_mem_singleton.2 ⟨utf8 "b\n\n c ", rfl⟩
  have hnumbers (token : Bytes) : ¬ fs.Overflows (utf8 "c/g") token := by
    rw [← readDocument_eq_overflow_iff_overflows, FileSystem.readDocument_eq_ok_iff.2 hlackingHolds]
    simp
  refine ⟨fs, other, document, otherDocument, _, hholds, hotherHolds, ?_, rfl, (hloads _).2 hloaded,
    ?_, hnumbers, ?_, herror⟩
  · rw [hdocument, hotherDocument]
    simp [Json.ofStrings]
  · rw [← hsame]
    exact (hloads _).2 hloaded
  · refine (hends hnumbers).resolve_left ?_
    rintro ⟨configuration, hvalue⟩
    rw [(herrors _).2 herror] at hvalue
    cases hvalue

end FieldRules

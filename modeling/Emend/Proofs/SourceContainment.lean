import Emend.Proofs.BoundaryPlaces
import Emend.Schema.Traversal
import Emend.Source

/-! Where the documents that are loaded may come from. A preset is taken for a name that can name nothing but a
file in the directory of its kind. Everything else is a regular file whose canonical path lies inside of the
boundary of the working directory. -/

namespace Emend

open Text FileError

/-- A name behind a text that is read as a path names an entry there. -/
theorem Path.ofText_child (t : Text) (name : Name) : ofText (t ++ slash :: name.text) = (ofText t).child name := by
  rw [ofText, ofText, resolve, resolve, ite_self, ite_self, split_concat name.slash_not_mem, List.foldl_append]
  exact step_name _ name

namespace Preset

def alphabet : Text := units "abcdefghijklmnopqrstuvwxyz0123456789-"

structure Named (t : Text) : Prop where
  occupied : t ≠ []
  start : t.head? ≠ some hyphen
  spelled : ∀ u ∈ t, u ∈ alphabet

theorem isNameUnit_iff {u : UInt16} : isNameUnit u = true ↔ u ∈ alphabet := by
  constructor
  · intro unit
    have small : u.toNat < 128 := by
      simp only [isNameUnit, isLower, isDigit, Bool.or_eq_true, Bool.and_eq_true, decide_eq_true_eq, beq_iff_eq,
        UInt16.le_iff_toNat_le, UInt16.reduceToNat] at unit
      rcases unit with (lower | digit) | rfl
      · omega
      · omega
      · decide
    have each : ∀ code < 128, isNameUnit (UInt16.ofNat code) = true → UInt16.ofNat code ∈ alphabet := by decide +kernel
    have same : UInt16.ofNat u.toNat = u := UInt16.ofNat_toNat
    exact same ▸ each u.toNat small (same.symm ▸ unit)
  · have each : alphabet.all isNameUnit = true := by decide
    exact List.all_eq_true.mp each u

theorem isName_iff {t : Text} : isName t = true ↔ Named t := by
  simp only [isName, Bool.and_eq_true, Bool.not_eq_true', List.isEmpty_eq_false_iff, bne_iff_ne, List.all_eq_true,
    isNameUnit_iff]
  exact ⟨fun ⟨⟨occupied, start⟩, spelled⟩ => ⟨occupied, start, spelled⟩,
    fun named => ⟨⟨named.occupied, named.start⟩, named.spelled⟩⟩

section

variable {data source : Text} {kind : SourceKind}

theorem Named.fileName_valid (named : Named source) : Name.isValid (fileName source) = true := by
  have ending : ∀ {t : Text}, fileName source = t → units ".json" <:+ t := fun same => same ▸ List.suffix_append _ _
  refine Name.isValid_iff.mpr ⟨?_, ?_, ?_, ?_⟩
  · exact fun same => absurd (ending same) (by decide)
  · intro member
    rcases List.mem_append.mp member with inside | after
    · exact absurd (named.spelled _ inside) (by decide)
    · exact absurd after (by decide)
  · exact fun same => absurd (ending same) (by decide)
  · exact fun same => absurd (ending same) (by decide)

theorem find_unnamed (unnamed : ¬ Named source) : find data kind source = .ok none := by
  rw [find, path?, if_neg fun name => unnamed (isName_iff.mp name)]

theorem find_some {preset : Preset} (found : find data kind source = .ok (some preset)) :
    Named source ∧ preset ∈ all ∧ preset.kind = kind ∧ preset.name = source := by
  by_cases named : Named source
  · rw [find, path?, if_pos (isName_iff.mpr named)] at found
    simp only at found
    split at found
    · cases found
    · have first := Except.ok.inj found
      have own := List.find?_some first
      rw [Bool.and_eq_true, decide_eq_true_eq, decide_eq_true_eq] at own
      exact ⟨named, List.mem_of_find?_eq_some first, own⟩
  · rw [find_unnamed named] at found
    cases found

end

end Preset

/-- What has been given by name was a regular file at its canonical path, inside of the boundary. -/
structure InputFile.Contained (file : InputFile) (space : Workspace) (options : SourceOptions) : Prop where
  inside : ∃ place bytes mode around, space.canonical file.path = .ok place ∧
    space.tree.get? place = some (.file bytes mode) ∧
    space.Bounds (space.directoryOf options.directory) around ∧ around.names <+: place.names ∧
    Workspace.decodeInput options.encoding bytes = .ok file.content

namespace Workspace

section

variable {space : Workspace} {input : Text} {options : SourceOptions}

theorem readInput_file {bytes : Bytes} {mode : Nat}
    (there : space.stat ((space.directoryOf options.directory).resolve input).toText = .ok (.file bytes mode))
    (inside : space.checkBoundary (space.directoryOf options.directory).toText
      ((space.directoryOf options.directory).resolve input).toText (units "Input path") = .ok ()) :
    space.readInput input options = (decodeInput options.encoding bytes).map fun content =>
      some ⟨((space.directoryOf options.directory).resolve input).toText, content⟩ := by
  rw [readInput]
  simp only [there, inside]
  cases decodeInput options.encoding bytes <;> rfl

theorem readInput_contained (wellFormed : space.tree.WellFormed) {file : InputFile}
    (read : space.readInput input options = .ok (some file)) : file.Contained space options := by
  cases there : space.stat ((space.directoryOf options.directory).resolve input).toText with
  | error error =>
    rw [readInput] at read
    simp only [there] at read
    split at read <;> cases read
  | ok node =>
    cases node with
    | directory | link target | pipe =>
      rw [readInput] at read
      simp only [there] at read
      cases read
    | file bytes mode =>
      cases inside : space.checkBoundary (space.directoryOf options.directory).toText
          ((space.directoryOf options.directory).resolve input).toText (units "Input path") with
      | error failure =>
        rw [readInput] at read
        simp only [there, inside] at read
        cases read
      | ok =>
        rw [readInput_file there inside] at read
        cases decoded : decodeInput options.encoding bytes with
        | error failure =>
          rw [decoded] at read
          cases read
        | ok content =>
          rw [decoded] at read
          obtain rfl := Option.some.inj (Except.ok.inj read)
          obtain ⟨place, reach, _⟩ := stat_found there
          have resolved := (Corpus.resolve_of_find reach).2
          obtain ⟨canonical, around, bounds, within⟩ :=
            bounds_of_check wellFormed inside resolved fun target same => by cases same
          exact ⟨place, bytes, mode, around, canonical, (Tree.resolve_settled resolved).standing, bounds, within, decoded⟩

end

end Workspace

namespace Library

variable (library : Library) (kind : SourceKind) (source : Text) (options : SourceOptions)

/-- Where a document may come from: from the file of a preset, which lies in the directory of its kind and is
named after it, or from a file inside of the boundary. -/
inductive Permits : SourceOrigin → Prop where
  | preset {path : Text} {preset : Preset} (named : Preset.Named source) (among : preset ∈ Preset.all)
      (own : preset.kind = kind ∧ preset.name = source)
      (child : ∃ name : Name, name.text = source ++ units ".json" ∧
        Path.ofText path = (Path.ofText (Preset.directory library.data kind)).child name) :
      Permits (.preset path preset)
  | file {file : InputFile} (contained : file.Contained library.space options) : Permits (.file file)

def rulesFrom [Schema.Validation] (source : Text) (origin : SourceOrigin) : Except Failure (Loaded (List Rule)) := do
  let (path, document) ← match origin with
    | .preset path (.rules document) => .ok (path, document)
    | .preset _ (.phrases _) => .error (.unknownSource .rules source)
    | .file file => do .ok (file.path, ← readDocument .rules Schema.checkRules file)
  .ok ⟨document.name, path, ← document.compileRules.mapError .rule⟩

def phrasesFrom [Schema.Validation] (source : Text) (origin : SourceOrigin) : Except Failure (Loaded PhraseTable) := do
  let (path, document) ← match origin with
    | .preset path (.phrases document) => .ok (path, document)
    | .preset _ (.rules _) => .error (.unknownSource .phrases source)
    | .file file => do .ok (file.path, ← readDocument .phrases Schema.checkPhrases file)
  .ok ⟨document.name, path, ← document.table.mapError .table⟩

theorem loadRules_eq [Schema.Validation] :
    library.loadRules source options = library.locate .rules source options >>= rulesFrom source := by
  rw [loadRules]
  cases library.locate .rules source options with
  | error failure => rfl
  | ok origin => rfl

theorem loadPhrases_eq [Schema.Validation] :
    library.loadPhrases source options = library.locate .phrases source options >>= phrasesFrom source := by
  rw [loadPhrases]
  cases library.locate .phrases source options with
  | error failure => rfl
  | ok origin => rfl

variable {library kind source options}

theorem locate_permits (wellFormed : library.space.tree.WellFormed) {origin : SourceOrigin}
    (found : library.locate kind source options = .ok origin) : library.Permits kind source options origin := by
  rw [locate] at found
  cases preset : Preset.find library.data kind source with
  | error error =>
    rw [preset] at found
    cases found
  | ok given =>
    rw [preset] at found
    cases given with
    | some preset_ =>
      obtain rfl := Except.ok.inj found
      obtain ⟨named, among, own⟩ := Preset.find_some preset
      refine .preset named among own ⟨⟨Preset.fileName source, named.fileName_valid⟩, rfl, ?_⟩
      have behind : Preset.directory library.data kind ++ units "/" ++ Preset.fileName source =
          Preset.directory library.data kind ++ slash :: Preset.fileName source := List.append_assoc _ _ _
      rw [behind]
      exact Path.ofText_child _ ⟨Preset.fileName source, named.fileName_valid⟩
    | none =>
      cases read : library.space.readInput source options with
      | error failure =>
        simp only [Except.mapError, bind, Except.bind, read] at found
        cases found
      | ok given =>
        simp only [Except.mapError, bind, Except.bind, read] at found
        cases given with
        | none => cases found
        | some file =>
          obtain rfl := Except.ok.inj found
          exact .file (Workspace.readInput_contained wellFormed read)

variable (library source options)

/-- Rules and phrases are made of what is found for their source alone, and that comes from a preset's file or from a
file inside of the boundary. Only a text of certain characters is ever taken for the name of a preset. -/
theorem load_permits [Schema.Validation] (wellFormed : library.space.tree.WellFormed) :
    library.loadRules source options = library.locate .rules source options >>= rulesFrom source ∧
      library.loadPhrases source options = library.locate .phrases source options >>= phrasesFrom source ∧
      (∀ kind origin, library.locate kind source options = .ok origin → library.Permits kind source options origin) ∧
      ∀ u ∈ source, u ∉ Preset.alphabet →
        ∀ kind path preset, library.locate kind source options ≠ .ok (.preset path preset) := by
  refine ⟨loadRules_eq library source options, loadPhrases_eq library source options,
    fun kind origin found => locate_permits wellFormed found, fun u member other kind path preset found => ?_⟩
  cases locate_permits wellFormed found with
  | preset named among own child => exact other (named.spelled u member)

/-- A repository with a file, a link to that file that has the name of a preset, and the presets elsewhere. -/
private def shadowLibrary : Library :=
  ⟨units "/data", ⟨⟨[(.ofText (units "/r"), .directory), (.ofText (units "/r/.git"), .directory),
    (.ofText (units "/r/message-text"), .link (units ".git/../a.json")),
    (.ofText (units "/r/a.json"), .file [0x7b, 0x7d] 0o644)]⟩, .root⟩⟩

/-- The name is taken for that of the preset, and as a path it leads to the file. -/
theorem load_permits_shadow :
    shadowLibrary.Permits .rules (units "message-text") ⟨some (units "r"), none⟩
        (.preset (units "/data/rules/message-text.json") (.rules Preset.messageText)) ∧
      shadowLibrary.Permits .rules (units "./message-text") ⟨some (units "r"), none⟩
        (.file ⟨units "/r/message-text", .text (units "\x7b\x7d")⟩) := by
  have wellFormed : shadowLibrary.space.tree.WellFormed := ⟨by decide +kernel, by decide +kernel⟩
  have preset : shadowLibrary.locate .rules (units "message-text") ⟨some (units "r"), none⟩ =
      .ok (.preset (units "/data/rules/message-text.json") (.rules Preset.messageText)) := by
    have given : Preset.find shadowLibrary.data .rules (units "message-text") =
        .ok (some (.rules Preset.messageText)) := by
      rw [Preset.find, Preset.path?, if_pos (by decide)]
      exact congrArg Except.ok (List.find?_cons_of_pos (by decide))
    rw [locate, given]
    rfl
  have file : shadowLibrary.locate .rules (units "./message-text") ⟨some (units "r"), none⟩ =
      .ok (.file ⟨units "/r/message-text", .text (units "\x7b\x7d")⟩) := by
    have unnamed : ¬ Preset.Named (units "./message-text") :=
      fun named => absurd (named.spelled dot (by decide)) (by decide)
    have there : shadowLibrary.space.stat (units "/r/message-text") = .ok (.file [0x7b, 0x7d] 0o644) := by
      decide +kernel
    have inside : shadowLibrary.space.checkBoundary (units "/r") (units "/r/message-text") (units "Input path") =
        .ok () := by decide +kernel
    have decoded : Utf8.decode [0x7b, 0x7d] = units "\x7b\x7d" := by decide +kernel
    have read : shadowLibrary.space.readInput (units "./message-text") ⟨some (units "r"), none⟩ =
        .ok (some ⟨units "/r/message-text", .text (Utf8.decode [0x7b, 0x7d])⟩) := Workspace.readInput_file there inside
    rw [locate, Preset.find_unnamed unnamed]
    simp only [read, decoded, Except.mapError, bind, Except.bind]
  exact ⟨(load_permits shadowLibrary _ ⟨some (units "r"), none⟩ wellFormed).2.2.1 .rules _ preset,
    (load_permits shadowLibrary _ ⟨some (units "r"), none⟩ wellFormed).2.2.1 .rules _ file⟩

end Library

end Emend

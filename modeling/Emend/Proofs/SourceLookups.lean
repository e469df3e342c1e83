import Emend.Proofs.AbsentScope
import Emend.Proofs.SourceContainment

/-! Where a source is found, and how it is missed. A preset of the kind and the name comes first, and a regular file
inside of the boundary second. A source that is neither is said to be unknown, but only where the system says that there
is no entry: a name too long for the file of a preset is not looked up any further, and a look-up that meets a file on
its way is a failure of its own. -/

namespace Emend

open Text FileError

namespace Preset

variable {data name : Text} {kind : SourceKind}

def filePath (data : Text) (kind : SourceKind) (name : Text) : Text :=
  directory data kind ++ units "/" ++ fileName name

/-- The name of a preset for which no file has a name. -/
structure Overlong (name : Text) : Prop where
  named : Named name
  long : fileNameLimit < (fileName name).length

def Unheard (kind : SourceKind) (name : Text) : Prop := ∀ preset ∈ all, preset.kind = kind → preset.name ≠ name

instance (kind : SourceKind) (name : Text) : Decidable (Unheard kind name) :=
  inferInstanceAs (Decidable (∀ preset ∈ all, preset.kind = kind → preset.name ≠ name))

theorem find_overlong (overlong : Overlong name) :
    find data kind name = .error (.failed .nameTooLong "open" (some (filePath data kind name))) := by
  rw [find, path?, if_pos (isName_iff.mpr overlong.named)]
  exact if_pos overlong.long

theorem find_of_named (named : Named name) (short : (fileName name).length ≤ fileNameLimit) :
    find data kind name = .ok (all.find? fun preset => preset.kind = kind && preset.name = name) := by
  rw [find, path?, if_pos (isName_iff.mpr named)]
  exact if_neg (Nat.not_lt.mpr short)

theorem named_of_mem {preset : Preset} (member : preset ∈ all) :
    Named preset.name ∧ (fileName preset.name).length ≤ fileNameLimit := by
  have each : ∀ preset ∈ all, isName preset.name = true ∧ (fileName preset.name).length ≤ fileNameLimit := by
    decide +kernel
  exact (each preset member).imp_left isName_iff.mp

theorem eq_of_mem_all {preset other : Preset} (member : preset ∈ all) (another : other ∈ all)
    (kind : preset.kind = other.kind) (name : preset.name = other.name) : preset = other := by
  have once : (all.map fun preset => (preset.kind, preset.name)).Nodup := by decide +kernel
  exact List.inj_on_of_nodup_map once member another (Prod.ext kind name)

theorem find_preset {preset : Preset} (member : preset ∈ all) :
    find data preset.kind preset.name = .ok (some preset) := by
  obtain ⟨named, short⟩ := named_of_mem member
  rw [find_of_named named short]
  cases first : all.find? fun other => other.kind = preset.kind && other.name = preset.name with
  | none => exact absurd (List.find?_eq_none.mp first preset member) (by simp)
  | some other =>
    have own := List.find?_some first
    rw [Bool.and_eq_true, decide_eq_true_eq, decide_eq_true_eq] at own
    rw [eq_of_mem_all (List.mem_of_find?_eq_some first) member own.1 own.2]

theorem find_unheard (unheard : Unheard kind name) (short : ¬ Overlong name) : find data kind name = .ok none := by
  by_cases named : Named name
  · rw [find_of_named named (Nat.not_lt.mp fun long => short ⟨named, long⟩), List.find?_eq_none.mpr]
    intro preset member
    simpa using unheard preset member
  · exact find_unnamed named

end Preset

namespace Workspace

variable {space : Workspace} {directory path : Path}

/-- A regular file with some bytes is at a path, and inside of the boundary of a directory. -/
def HoldsFile (space : Workspace) (directory path : Path) (bytes : Bytes) : Prop :=
  ∃ place mode around, space.canonical path.toText = .ok place ∧ space.tree.get? place = some (.file bytes mode) ∧
    space.Bounds directory around ∧ around.names <+: place.names

def Vacant (space : Workspace) (path : Path) : Prop := ∀ place, space.canonical path.toText ≠ .ok place

/-- What leads somewhere can be looked at, unless the path is too long for the call. -/
theorem stat_of_canonical {place : Path} (leads : space.canonical path.toText = .ok place) :
    ∃ node, space.tree.get? place = some node ∧ space.stat path.toText =
      if (Utf8.encode path.toText).length < Tree.pathLimit then .ok node
      else .error (.failed .nameTooLong "stat" (some path.toText)) := by
  have way := Corpus.naming_eq_ok leads
  cases reach : space.tree.resolve space.directory true path.toText with
  | error code =>
    rw [reach] at way
    cases way
  | ok found =>
    rw [reach] at way
    cases found with
    | missing path => cases way
    | node other node =>
      obtain rfl : other = place := Except.ok.inj way
      refine ⟨node, (Tree.resolve_settled reach).standing, ?_⟩
      split
      next short =>
        have found : space.tree.find space.directory true path.toText = .ok (.node other node) :=
          (if_neg (Nat.not_le.mpr short)).trans reach
        exact stat_of_find found leads
      next long =>
        rw [stat, Tree.lookup, Tree.find, if_pos (Nat.not_lt.mp long), naming, contains_of_naming leads]
        rfl

section

variable {input : Text} {options : SourceOptions}

/-- A regular file inside of the boundary is read, unless its path is too long for the call. -/
theorem readInput_holds {bytes : Bytes}
    (holds : space.HoldsFile (space.directoryOf options.directory)
      ((space.directoryOf options.directory).resolve input) bytes) :
    space.readInput input options =
      if (Utf8.encode ((space.directoryOf options.directory).resolve input).toText).length < Tree.pathLimit then
        (decodeInput options.encoding bytes).map fun content =>
          some ⟨((space.directoryOf options.directory).resolve input).toText, content⟩
      else .error (.file (.failed .nameTooLong "stat"
        (some ((space.directoryOf options.directory).resolve input).toText))) := by
  obtain ⟨place, mode, around, leads, stands, bounds, within⟩ := holds
  obtain ⟨node, own, there⟩ := stat_of_canonical leads
  obtain rfl := Option.some.inj (own.symm.trans stands)
  split at there
  next short =>
    rw [if_pos short]
    apply readInput_file there
    rw [checkBoundary_eq bounds, canonicalOrGiven, leads]
    exact if_pos (Path.within_iff_prefix.mpr within)
  next long =>
    rw [if_neg long, readInput]
    simp only [there]
    rfl

theorem readInput_vacant (vacant : space.Vacant ((space.directoryOf options.directory).resolve input)) :
    ∃ error, space.stat ((space.directoryOf options.directory).resolve input).toText = .error error ∧
      space.readInput input options = if error.isMissing then .ok none else .error (.file error) := by
  cases looked : space.stat ((space.directoryOf options.directory).resolve input).toText with
  | ok node =>
    obtain ⟨place, _, leads⟩ := stat_found looked
    exact absurd leads (vacant place)
  | error error =>
    refine ⟨error, rfl, ?_⟩
    rw [readInput]
    simp only [looked]

end

end Workspace

namespace Library

variable (library : Library) (kind : SourceKind) (source : Text) (options : SourceOptions)

def target : Path := (library.space.directoryOf options.directory).resolve source

/-- What can be said of a source that is no preset and at whose path there is nothing. -/
inductive Unfound : Failure → Prop where
  /-- It is taken for a preset, and no file of the system can be named after it. -/
  | overlong (overlong : Preset.Overlong source) :
      Unfound (.file (.failed .nameTooLong "open" (some (Preset.filePath library.data kind source))))
  /-- The look-up does not end at a missing entry: it meets a file on its way, say, or goes round in links. -/
  | unresolved (short : ¬ Preset.Overlong source) {error : FileError}
      (fails : library.space.stat (library.target source options).toText = .error error)
      (other : error ≠ Workspace.nowhere "stat" (library.target source options)) : Unfound (.file error)
  /-- The look-up ends where there is no entry. -/
  | unknown (short : ¬ Preset.Overlong source) (fails : library.space.stat (library.target source options).toText =
      .error (Workspace.nowhere "stat" (library.target source options))) : Unfound (.unknownSource kind source)

variable {library kind source options}

theorem Unfound.unique {failure other : Failure} (one : library.Unfound kind source options failure)
    (two : library.Unfound kind source options other) : failure = other := by
  cases one with
  | overlong overlong =>
    cases two with
    | overlong => rfl
    | unresolved short | unknown short => exact absurd overlong short
  | unresolved short fails apart =>
    cases two with
    | overlong overlong => exact absurd overlong short
    | unresolved _ failsToo => rw [Except.error.inj (fails.symm.trans failsToo)]
    | unknown _ failsToo => exact absurd (Except.error.inj (fails.symm.trans failsToo)) apart
  | unknown short fails =>
    cases two with
    | overlong overlong => exact absurd overlong short
    | unresolved _ failsToo apart => exact absurd (Except.error.inj (failsToo.symm.trans fails)) apart
    | unknown => rfl

theorem locate_preset {preset : Preset} (member : preset ∈ Preset.all) :
    library.locate preset.kind preset.name options =
      .ok (.preset (Preset.filePath library.data preset.kind preset.name) preset) := by
  rw [locate, Preset.find_preset member]
  rfl

theorem locate_overlong (overlong : Preset.Overlong source) : library.locate kind source options =
    .error (.file (.failed .nameTooLong "open" (some (Preset.filePath library.data kind source)))) := by
  rw [locate, Preset.find_overlong overlong]
  rfl

section

variable (unheard : Preset.Unheard kind source) (short : ¬ Preset.Overlong source)
include unheard short

theorem locate_unheard : library.locate kind source options = (library.space.readInput source options).bind fun
    | some file => .ok (.file file)
    | none => .error (.unknownSource kind source) := by
  rw [locate, Preset.find_unheard unheard short]
  rfl

theorem locate_holds {bytes : Bytes}
    (holds : library.space.HoldsFile (library.space.directoryOf options.directory) (library.target source options)
      bytes) :
    library.locate kind source options =
      if (Utf8.encode (library.target source options).toText).length < Tree.pathLimit then
        (Workspace.decodeInput options.encoding bytes).map fun content =>
          .file ⟨(library.target source options).toText, content⟩
      else .error (.file (.failed .nameTooLong "stat" (some (library.target source options).toText))) := by
  rw [locate_unheard unheard short, Workspace.readInput_holds holds]
  by_cases bounded : (Utf8.encode (library.target source options).toText).length < Tree.pathLimit
  · rw [if_pos bounded]
    refine (congrArg (Except.bind · _) (if_pos bounded)).trans ?_
    cases Workspace.decodeInput options.encoding bytes <;> rfl
  · rw [if_neg bounded]
    exact congrArg (Except.bind · _) (if_neg bounded)

end

theorem locate_vacant (unheard : Preset.Unheard kind source)
    (vacant : library.space.Vacant (library.target source options)) :
    ∃ failure, library.locate kind source options = .error failure ∧ library.Unfound kind source options failure := by
  by_cases overlong : Preset.Overlong source
  · exact ⟨_, locate_overlong overlong, .overlong overlong⟩
  · obtain ⟨error, fails, read⟩ := Workspace.readInput_vacant vacant
    rw [locate_unheard unheard overlong, read]
    by_cases missing : error.isMissing = true
    · rw [(Workspace.naming_missing fails missing).1] at fails
      rw [if_pos missing]
      exact ⟨_, rfl, .unknown overlong fails⟩
    · rw [if_neg missing]
      refine ⟨_, rfl, .unresolved overlong fails ?_⟩
      rintro rfl
      exact missing rfl

def unknownText : SourceKind → Text
  | .rules => units "Unknown rule set \""
  | .phrases => units "Unknown phrase table \""

theorem message_unknownSource (wording : Wording) (kind : SourceKind) (source : Text) :
    (Failure.unknownSource kind source).message wording =
      unknownText kind ++ (source ++ units "\": not a built-in preset or an existing file.") := by
  have start : unknownText kind = units "Unknown " ++ kind.label ++ units " \"" := by cases kind <;> decide
  rw [start, Failure.message, List.append_assoc _ source]

variable (library kind source options)

/-- How a source is resolved. The preset of the kind and the name wins. Next comes a regular file inside of the
boundary, which is read unless the source could be the name of a preset and is too long for one, or its path is too long
for a call. Where there is nothing the source cannot be loaded, and it is said to be unknown exactly if the system has
looked for it to the end and says that there is no entry. -/
theorem locate_source [Schema.Validation] :
    library.loadRules source options = library.locate .rules source options >>= rulesFrom source ∧
      library.loadPhrases source options = library.locate .phrases source options >>= phrasesFrom source ∧
      (∀ preset ∈ Preset.all, preset.kind = kind → preset.name = source → library.locate kind source options =
        .ok (.preset (Preset.filePath library.data kind source) preset)) ∧
      (Preset.Overlong source → library.locate kind source options =
        .error (.file (.failed .nameTooLong "open" (some (Preset.filePath library.data kind source))))) ∧
      (Preset.Unheard kind source → ¬ Preset.Overlong source → ∀ bytes, library.space.HoldsFile
          (library.space.directoryOf options.directory) (library.target source options) bytes →
        library.locate kind source options =
          if (Utf8.encode (library.target source options).toText).length < Tree.pathLimit then
            (Workspace.decodeInput options.encoding bytes).map fun content =>
              .file ⟨(library.target source options).toText, content⟩
          else .error (.file (.failed .nameTooLong "stat" (some (library.target source options).toText)))) ∧
      (Preset.Unheard kind source → library.space.Vacant (library.target source options) →
        ∃ failure, library.locate kind source options = .error failure ∧
          ∀ other, library.Unfound kind source options other ↔ failure = other) ∧
      ∀ wording, (Failure.unknownSource kind source).message wording =
        unknownText kind ++ (source ++ units "\": not a built-in preset or an existing file.") := by
  refine ⟨loadRules_eq library source options, loadPhrases_eq library source options, ?_, locate_overlong,
    fun unheard short bytes => locate_holds unheard short, fun unheard vacant => ?_,
    fun wording => message_unknownSource wording kind source⟩
  · rintro preset member rfl rfl
    exact locate_preset member
  · obtain ⟨failure, fails, unfound⟩ := locate_vacant unheard vacant
    exact ⟨failure, fails, fun other => ⟨unfound.unique, fun same => same ▸ unfound⟩⟩

/-- A repository with a file that has the name of a preset, another one with a name too long for a preset, and the
presets elsewhere. -/
private def twinLibrary : Library :=
  ⟨units "/data", ⟨⟨[(.ofText (units "/r"), .directory), (.ofText (units "/r/.git"), .directory),
    (.ofText (units "/r/message-text"), .file [0x7b, 0x7d] 0o644),
    (.ofText (units "/r/" ++ List.replicate 251 0x61), .file [0x7b, 0x7d] 0o644)]⟩, .root⟩⟩

private def twinOptions : SourceOptions := ⟨some (units "r"), none⟩

private theorem twinLibrary_bounds :
    twinLibrary.space.Bounds (twinLibrary.space.directoryOf twinOptions.directory) (.ofText (units "/r")) :=
  Workspace.bounds_iff.mpr (by decide +kernel)

/-- For rules the name is that of the preset, for phrases it is that of the file, and another one is unknown. -/
theorem locate_source_twin :
    twinLibrary.locate .rules (units "message-text") twinOptions =
        .ok (.preset (units "/data/rules/message-text.json") (.rules Preset.messageText)) ∧
      twinLibrary.locate .phrases (units "message-text") twinOptions =
        .ok (.file ⟨units "/r/message-text", .text (units "\x7b\x7d")⟩) ∧
      twinLibrary.locate .phrases (units "gone") twinOptions = .error (.unknownSource .phrases (units "gone")) := by
  refine ⟨?_, ?_, ?_⟩
  · obtain ⟨_, _, wins, _⟩ := locate_source twinLibrary .rules (units "message-text") twinOptions
    exact wins (.rules Preset.messageText) List.mem_cons_self rfl rfl
  · obtain ⟨_, _, _, _, next, _⟩ := locate_source twinLibrary .phrases (units "message-text") twinOptions
    have unheard : Preset.Unheard .phrases (units "message-text") := by decide +kernel
    have short : ¬ Preset.Overlong (units "message-text") := fun overlong => absurd overlong.long (by decide)
    have holds : twinLibrary.space.HoldsFile (twinLibrary.space.directoryOf twinOptions.directory)
        (twinLibrary.target (units "message-text") twinOptions) [0x7b, 0x7d] :=
      ⟨.ofText (units "/r/message-text"), 0o644, _, by decide +kernel, by decide +kernel, twinLibrary_bounds,
        by decide +kernel⟩
    have decoded : Utf8.decode [0x7b, 0x7d] = units "\x7b\x7d" := by decide +kernel
    rw [next unheard short _ holds, if_pos (by decide +kernel), ← decoded]
    rfl
  · obtain ⟨_, _, _, _, _, last, _⟩ := locate_source twinLibrary .phrases (units "gone") twinOptions
    have unheard : Preset.Unheard .phrases (units "gone") := by decide +kernel
    have short : ¬ Preset.Overlong (units "gone") := fun overlong => absurd overlong.long (by decide)
    have nothing : twinLibrary.space.canonical (twinLibrary.target (units "gone") twinOptions).toText =
        .error (.failed .noEntry "realpath" (some (units "/r/gone"))) := by decide +kernel
    have vacant : twinLibrary.space.Vacant (twinLibrary.target (units "gone") twinOptions) := fun place leads =>
      nomatch nothing.symm.trans leads
    obtain ⟨failure, fails, exactly⟩ := last unheard vacant
    rw [fails, (exactly _).mp (.unknown short (by decide +kernel))]

/-- A file that is there is not found under its name, and of a path below a file it is not said that it is unknown. -/
theorem locate_source_missed :
    (Preset.Unheard .phrases (List.replicate 251 0x61) ∧
      twinLibrary.space.HoldsFile (twinLibrary.space.directoryOf twinOptions.directory)
        (twinLibrary.target (List.replicate 251 0x61) twinOptions) [0x7b, 0x7d] ∧
      twinLibrary.locate .phrases (List.replicate 251 0x61) twinOptions = .error (.file (.failed .nameTooLong "open"
        (some (units "/data/phrases/" ++ List.replicate 251 0x61 ++ units ".json"))))) ∧
    Preset.Unheard .rules (units "message-text/x") ∧
      twinLibrary.space.Vacant (twinLibrary.target (units "message-text/x") twinOptions) ∧
      twinLibrary.locate .rules (units "message-text/x") twinOptions =
        .error (.file (.failed .notDirectory "stat" (some (units "/r/message-text/x")))) := by
  have nothing : twinLibrary.space.canonical (twinLibrary.target (units "message-text/x") twinOptions).toText =
      .error (.failed .notDirectory "realpath" (some (units "/r/message-text/x"))) := by decide +kernel
  have vacant : twinLibrary.space.Vacant (twinLibrary.target (units "message-text/x") twinOptions) := fun place leads =>
    nomatch nothing.symm.trans leads
  have unheard : Preset.Unheard .rules (units "message-text/x") := by decide +kernel
  refine ⟨⟨by decide +kernel, ?_, ?_⟩, unheard, vacant, ?_⟩
  · exact ⟨.ofText (units "/r/" ++ List.replicate 251 0x61), 0o644, _, by decide +kernel, by decide +kernel,
      twinLibrary_bounds, by decide +kernel⟩
  · have overlong : Preset.Overlong (List.replicate 251 0x61) :=
      ⟨Preset.isName_iff.mp (by decide +kernel), by decide +kernel⟩
    have kept : Preset.filePath twinLibrary.data .phrases (List.replicate 251 0x61) =
        units "/data/phrases/" ++ List.replicate 251 0x61 ++ units ".json" := by decide +kernel
    rw [locate_overlong overlong, kept]
  · have short : ¬ Preset.Overlong (units "message-text/x") := fun overlong => absurd overlong.long (by decide)
    have fails : twinLibrary.space.stat (twinLibrary.target (units "message-text/x") twinOptions).toText =
        .error (.failed .notDirectory "stat" (some (units "/r/message-text/x"))) := by decide +kernel
    obtain ⟨failure, missed, unfound⟩ := locate_vacant unheard vacant
    rw [missed, unfound.unique (.unresolved short fails (by decide +kernel))]

end Library

end Emend

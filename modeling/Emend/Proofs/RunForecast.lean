import Emend.Proofs.RunTrees

/-! A preview tells what a run would come to. They agree on every file, but for those that would change and cannot be
written: the caller refuses, the encoding does not hold the new text, the path of the sibling is too long, or the system
refuses one of the calls by which the file is replaced. A preview never asks for that, and the run has a failure to report
for each of these files. -/

namespace Emend

open Text FileError

/-- Two reports say the same of the files of a corpus. -/
structure Tally.Agrees (one other : Tally) : Prop where
  scanned : one.scanned = other.scanned
  matched : one.matched = other.matched
  changed : one.changed = other.changed
  structural : one.structural = other.structural
  phrases : one.phrases = other.phrases
  files : one.files = other.files
  failures : one.failures = other.failures

namespace Corpus

variable {refusals : Refusals} {space : Workspace} {options : FileOptions} {hook : Hook} {token path : Text}

/-- All that can fail when nothing is written is reading. -/
theorem outlookUnder_failure {failure : FileFailure}
    (failed : (outlookUnder refusals space options path).failure? = some failure) : failure.phase = .read := by
  rw [outlookUnder] at failed
  split at failed
  · exact Option.some.inj failed ▸ rfl
  · rw [outlook] at failed
    split at failed
    · exact Option.some.inj failed ▸ rfl
    · split at failed
      · exact Option.some.inj failed ▸ rfl
      · simp only at failed
        split at failed <;> cases failed

theorem Foretells.failure {written : Option Bytes} {outcome : FileOutcome}
    (foretells : Foretells refusals hook space options token path (outlookUnder refusals space options path) written
      outcome) :
    (outlookUnder refusals space options path).failure? = outcome.failure?.filter (·.phase = .read) := by
  generalize told : outlookUnder refusals space options path = foretold at foretells
  cases foretells with
  | settled unchanged =>
    cases failed : outcome.failure? with
    | none => rfl
    | some failure =>
      rw [← told] at failed
      rw [Option.filter_some, if_pos (decide_eq_true (outlookUnder_failure failed))]
  | hindered | written => rfl

/-- What was told of a file comes true unless it cannot be written. -/
theorem Foretells.same {foretold outcome : FileOutcome} {written : Option Bytes}
    (foretells : Foretells refusals hook space options token path foretold written outcome)
    (read : ∀ failure, outcome.failure? = some failure → failure.phase = .read) : outcome = foretold := by
  cases foretells with
  | settled unchanged => rfl
  | hindered => cases read _ rfl
  | written => rfl

section

variable {refusals : Nat → Refusals} {token : Nat → Text} {files : List Path} {entryOf : Path → Path}
  {after : Workspace} {outcomes : List FileOutcome}

theorem Foretold.failures (foretold : Foretold refusals hook options token files entryOf space after outcomes) :
    (files.mapIdx fun index file => outlookUnder (refusals index) space options file.toText).filterMap
        FileOutcome.failure? =
      (outcomes.filterMap FileOutcome.failure?).filter (·.phase = .read) := by
  have each : (files.mapIdx fun index file => outlookUnder (refusals index) space options file.toText).map
      FileOutcome.failure? = outcomes.map fun outcome => outcome.failure?.filter (·.phase = .read) := by
    refine List.ext_getElem (by simp [foretold.count]) fun index inside insideToo => ?_
    rw [List.length_map, List.length_mapIdx] at inside
    rw [List.length_map] at insideToo
    obtain ⟨written, foretells, _⟩ :=
      foretold.each index _ _ (List.getElem?_eq_getElem inside) (List.getElem?_eq_getElem insideToo)
    rw [List.getElem_map, List.getElem_map, List.getElem_mapIdx]
    exact foretells.failure
  have picked := congrArg (List.filterMap id) each
  rw [List.filterMap_map, List.filterMap_map] at picked
  rw [List.filter_filterMap]
  exact picked

/-- Where all files can be written, what was told of them comes true. -/
theorem Foretold.same (foretold : Foretold refusals hook options token files entryOf space after outcomes)
    (read : ∀ failure ∈ outcomes.filterMap FileOutcome.failure?, failure.phase = .read) :
    outcomes = files.mapIdx fun index file => outlookUnder (refusals index) space options file.toText := by
  refine List.ext_getElem (by simp [foretold.count]) fun index inside insideToo => ?_
  rw [List.length_mapIdx] at insideToo
  obtain ⟨written, foretells, _⟩ :=
    foretold.each index _ _ (List.getElem?_eq_getElem insideToo) (List.getElem?_eq_getElem inside)
  rw [List.getElem_mapIdx]
  exact foretells.same fun failure failed =>
    read failure (List.mem_filterMap.mpr ⟨_, List.getElem_mem inside, failed⟩)

end

end Corpus

def RunOptions.previewed (options : RunOptions) : RunOptions := { options with preview := true }

namespace Workspace

variable {space : Workspace} {plan : Plan} {options : RunOptions} {means : RunMeans} {files : List Path}

def outlooks (refusals : Nat → Refusals) (space : Workspace) (plan : Plan) (options : RunOptions) (files : List Path) :
    List FileOutcome :=
  files.mapIdx fun index file => Corpus.outlookUnder (refusals index) space
    (options.fileOptions plan (space.directoryOf options.directory)) file.toText

/-- Where nothing is to be written, a run says of its files what reading them tells, and changes nothing. -/
theorem revisedUnder_glances (refusals : Nat → Refusals) (plan : Plan) (means : RunMeans)
    (number : options.concurrencyValue ≠ .nan)
    (settled : options.preview = true ∨
      ∀ outcome ∈ space.outlooks refusals plan options files, outcome.change? = none) :
    space.revisedUnder refusals plan options means files = (⟨space, []⟩, space.outlooks refusals plan options files) := by
  have told : space.revisedUnder refusals plan options means files = (⟨space, []⟩,
      (files.map Path.toText).mapIdx fun index path => Corpus.outlookUnder (refusals index) space
        (options.fileOptions plan (space.directoryOf options.directory)) path) := by
    refine Corpus.reviseAllUnder_glances _ _ _ _ (Pool.limitOf_pos number files.length) fun index path found => ?_
    obtain ⟨file, own, rfl⟩ := Option.map_eq_some_iff.mp (List.getElem?_map ▸ found)
    obtain ⟨inside, rfl⟩ := List.getElem?_eq_some_iff.mp own
    exact settled.imp id fun unchanged => unchanged _ (List.mem_mapIdx.mpr ⟨index, inside, rfl⟩)
  refine told.trans (congrArg (Prod.mk _) (List.ext_getElem (by simp [outlooks]) fun index _ _ => ?_))
  simp only [outlooks, List.getElem_mapIdx, List.getElem_map]

theorem revisedUnder_previewed (refusals : Nat → Refusals) (plan : Plan) (means : RunMeans) (files : List Path)
    (number : options.concurrencyValue ≠ .nan) :
    space.revisedUnder refusals plan options.previewed means files =
      (⟨space, []⟩, space.outlooks refusals plan options files) :=
  revisedUnder_glances refusals plan means number (.inl rfl)

theorem TakesOnUnder.previewed {opening : Text → Option FileError.Code}
    (taken : space.TakesOnUnder opening options files) : space.TakesOnUnder opening options.previewed files :=
  ⟨taken.inside, taken.collected⟩

/-- What fails before any file is read fails in the same way whether the run is a preview or not, and whatever calls for
files are refused. -/
theorem reviseCorpusUnder_refused {opening : Text → Option FileError.Code} (plan : Plan)
    (refused : ∀ files, ¬ space.TakesOnUnder opening options files) :
    ∃ failure, ∀ (refusals : RunRefusals) means, refusals.opening = opening →
      (space.reviseCorpusUnder refusals plan options.previewed means).2 = (⟨space, []⟩, .error failure) ∧
      (space.reviseCorpusUnder refusals plan options means).2 = (⟨space, []⟩, .error failure) := by
  cases inside : space.checkBoundary (space.directoryOf options.directory).toText
      ((space.directoryOf options.directory).resolve options.scopeText).toText (units "Scope") with
  | error failure =>
    exact ⟨failure, fun _ _ _ => ⟨reviseCorpusUnder_outside plan inside, reviseCorpusUnder_outside plan inside⟩⟩
  | ok =>
    cases collected : Corpus.collectUnder opening space ⟨(space.directoryOf options.directory).toText,
        options.scopeText, options.extensions, options.excluded⟩ with
    | error failure =>
      refine ⟨failure, fun refusals means same => ?_⟩
      subst same
      exact ⟨reviseCorpusUnder_uncollected plan inside collected, reviseCorpusUnder_uncollected plan inside collected⟩
    | ok files => exact absurd ⟨inside, collected⟩ (refused files)

/-- The report of a preview agrees with that of the run in every file, but for those that would change and cannot be
written, of which the run reports that failure. Where there is none of them, the reports agree. A run that takes on no
files fails as its preview does. The system refuses both the same calls, of which a preview makes few. -/
theorem reviseCorpus_foretold (refusals : RunRefusals) (wellFormed : space.tree.WellFormed)
    (real : options.preview = false) (steady : means.hook.Steady)
    (fresh : ∀ files, space.TakesOnUnder refusals.opening options files →
      Corpus.FreshTokens means.token files.length space.tree)
    (previewing : RunMeans) :
    (∀ files, space.TakesOnUnder refusals.opening options files → ∃ foretold tally,
      (space.reviseCorpusUnder refusals plan options.previewed previewing).2 = (⟨space, []⟩, .ok foretold) ∧
      (space.reviseCorpusUnder refusals plan options means).2.2 = .ok tally ∧
      foretold.scanned = tally.scanned ∧
      foretold.failures = tally.failures.filter (·.phase = .read) ∧
      ((∀ failure ∈ tally.failures, failure.phase = .read) → foretold.Agrees tally) ∧
      (options.concurrencyValue ≠ .nan → ∃ outcomes, outcomes.length = files.length ∧
        foretold = space.tallyOf options.previewed files (space.outlooks refusals.calls plan options files) ∧
        tally = space.tallyOf options files outcomes ∧
        ∀ index file outcome, files[index]? = some file → outcomes[index]? = some outcome → ∃ written,
          Corpus.Foretells (refusals.calls index) means.hook space
            (options.fileOptions plan (space.directoryOf options.directory)) (means.token index) file.toText
            (Corpus.outlookUnder (refusals.calls index) space
              (options.fileOptions plan (space.directoryOf options.directory)) file.toText) written outcome)) ∧
    ((∀ files, ¬ space.TakesOnUnder refusals.opening options files) → ∃ failure,
      (space.reviseCorpusUnder refusals plan options.previewed previewing).2 = (⟨space, []⟩, .error failure) ∧
      (space.reviseCorpusUnder refusals plan options means).2 = (⟨space, []⟩, .error failure)) := by
  refine ⟨fun files taken => ?_, fun refused => ?_⟩
  · rw [reviseCorpusUnder_taken taken.previewed, reviseCorpusUnder_taken taken]
    by_cases number : options.concurrencyValue = .nan
    · have other : options.previewed.concurrencyValue = .nan := number
      rw [revisedUnder_of_nan plan _ number, revisedUnder_of_nan plan _ other]
      exact ⟨_, _, rfl, rfl, rfl, rfl, fun _ => ⟨rfl, rfl, rfl, rfl, rfl, rfl, rfl⟩, fun some => absurd number some⟩
    · rw [revisedUnder_previewed _ plan previewing files number]
      obtain ⟨entryOf, _, foretold⟩ := revised_laid refusals plan wellFormed steady taken (fresh files taken) real number
      refine ⟨_, _, rfl, rfl, rfl, foretold.failures, fun read => ?_, fun _ => ⟨_, foretold.count, rfl, rfl, ?_⟩⟩
      · rw [foretold.same read]
        exact ⟨rfl, rfl, rfl, rfl, rfl, rfl, rfl⟩
      · intro index file outcome found ended
        obtain ⟨written, foretells, _⟩ := foretold.each index file outcome found ended
        exact ⟨written, foretells⟩
  · obtain ⟨failure, fails⟩ := reviseCorpusUnder_refused plan refused
    exact ⟨failure, (fails refusals previewing rfl).1, (fails refusals means rfl).2⟩

private def glyphSpace : Workspace := ⟨⟨[(.ofText (units "/a.ts"), .file [0x78] 0o644)]⟩, .root⟩

private def glyphPlan : Plan := ⟨[], [⟨[⟨units "x", [0x4E2D]⟩], by decide, by decide⟩]⟩

private def glyphOptions (encoding : String) : RunOptions :=
  ⟨[], [], some (units "a.ts"), none, false, none, none, some (units encoding), none, none⟩

private def glyphMeans : RunMeans :=
  ⟨⟨[], [], [], [], [], [], fun _ => []⟩, .silent, .turns, fun _ => units "0a-1f", .zero⟩

private theorem glyphSpace_wellFormed : glyphSpace.tree.WellFormed := ⟨by decide +kernel, by decide +kernel⟩

private theorem glyphMeans_steady : glyphMeans.hook.Steady := ⟨fun _ _ => rfl, fun _ _ _ => rfl⟩

private theorem glyphSpace_takesOn (encoding : String) :
    glyphSpace.TakesOn (glyphOptions encoding) [.ofText (units "/a.ts")] :=
  have taken : glyphSpace.TakesOn (glyphOptions "utf8") [.ofText (units "/a.ts")] :=
    ⟨by decide +kernel, by decide +kernel⟩
  ⟨taken.inside, taken.collected⟩

private theorem glyphMeans_fresh : Corpus.FreshTokens glyphMeans.token 1 glyphSpace.tree :=
  ⟨by decide +kernel, by decide +kernel, by decide +kernel⟩

/-- In UTF-8 the new text is written, as the preview has told. -/
theorem reviseCorpus_foretold_written : ∃ foretold tally,
    (glyphSpace.reviseCorpus glyphPlan (glyphOptions "utf8").previewed glyphMeans).2 =
        (⟨glyphSpace, []⟩, .ok foretold) ∧
      (glyphSpace.reviseCorpus glyphPlan (glyphOptions "utf8") glyphMeans).2.2 = .ok tally ∧ tally.changed = 1 ∧
      foretold.Agrees tally := by
  have taken := takesOnUnder_none.mpr (glyphSpace_takesOn "utf8")
  have fresh : ∀ files, glyphSpace.TakesOnUnder RunRefusals.none.opening (glyphOptions "utf8") files →
      Corpus.FreshTokens glyphMeans.token files.length glyphSpace.tree := by
    intro files other
    obtain rfl := Except.ok.inj (taken.collected.symm.trans other.collected)
    exact glyphMeans_fresh
  obtain ⟨every, _⟩ := @reviseCorpus_foretold glyphSpace glyphPlan (glyphOptions "utf8") glyphMeans .none
    glyphSpace_wellFormed rfl glyphMeans_steady fresh glyphMeans
  rw [← reviseCorpus, ← reviseCorpus] at every
  obtain ⟨foretold, tally, told, ran, _, _, agrees, _⟩ := every _ taken
  have changed : (glyphSpace.reviseCorpus glyphPlan (glyphOptions "utf8") glyphMeans).2.2.map Tally.changed = .ok 1 := by
    decide +kernel
  have clean : (glyphSpace.reviseCorpus glyphPlan (glyphOptions "utf8") glyphMeans).2.2.map Tally.failures = .ok [] := by
    decide +kernel
  rw [ran] at changed clean
  refine ⟨foretold, tally, told, ran, Except.ok.inj changed, agrees fun failure member => ?_⟩
  rw [show tally.failures = [] from Except.ok.inj clean] at member
  cases member

/-- Latin-1 does not hold the new text, which the preview does not tell. -/
theorem reviseCorpus_not_foretold :
    glyphSpace.tree.WellFormed ∧ glyphMeans.hook.Steady ∧
      glyphSpace.TakesOn (glyphOptions "latin1") [.ofText (units "/a.ts")] ∧
      Corpus.FreshTokens glyphMeans.token 1 glyphSpace.tree ∧
      ¬ ∀ foretold tally,
        (glyphSpace.reviseCorpus glyphPlan (glyphOptions "latin1").previewed glyphMeans).2.2 = .ok foretold →
        (glyphSpace.reviseCorpus glyphPlan (glyphOptions "latin1") glyphMeans).2.2 = .ok tally →
        foretold.Agrees tally := by
  refine ⟨glyphSpace_wellFormed, glyphMeans_steady, glyphSpace_takesOn "latin1", glyphMeans_fresh, fun every => ?_⟩
  have told : (glyphSpace.reviseCorpus glyphPlan (glyphOptions "latin1").previewed glyphMeans).2.2.map Tally.changed =
      .ok 1 := by decide +kernel
  have ran : (glyphSpace.reviseCorpus glyphPlan (glyphOptions "latin1") glyphMeans).2.2.map Tally.changed = .ok 0 := by
    decide +kernel
  cases preview : (glyphSpace.reviseCorpus glyphPlan (glyphOptions "latin1").previewed glyphMeans).2.2 with
  | error failure => rw [preview] at told; cases told
  | ok foretold =>
    cases run : (glyphSpace.reviseCorpus glyphPlan (glyphOptions "latin1") glyphMeans).2.2 with
    | error failure => rw [run] at ran; cases ran
    | ok tally =>
      rw [preview] at told
      rw [run] at ran
      have same := (every foretold tally preview run).changed
      rw [Except.ok.inj told, Except.ok.inj ran] at same
      cases same

end Workspace

end Emend

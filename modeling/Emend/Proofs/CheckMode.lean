import Emend.Command.Apply
import Emend.Proofs.RunForecast
import Emend.Schema.Traversal

/-! What a check tells of the run that it stands for. It accepts exactly when that run leaves every file as it is and
has no failure to report: a file that the check would have rewritten either is rewritten, and then it has other bytes
than before, or is reported as a failure. -/

namespace Emend

open Text FileError

theorem encoded_ne {plan : Plan} {encoding path text : Text} {bytes encoded : Bytes}
    (decoded : decodeLosslessly bytes encoding path = .ok text) (changed : (plan.revise text).changed = true)
    (holds : encodeLosslessly (plan.revise text).text encoding path = .ok encoded) : encoded ≠ bytes := by
  rintro rfl
  have before := (decodeLosslessly_eq_ok_iff.mp decoded).2
  have after := (encodeLosslessly_eq_ok_iff.mp holds).2
  have same : text = (plan.revise text).text := Except.ok.inj (before.symm.trans after)
  exact bne_iff_ne.mp changed same.symm

namespace Corpus

variable {space : Workspace} {scope : Path} {files : List Path} {entryOf : Path → Path}

/-- What stands in the entry of a file that is read holds the bytes that were read, unless it is a link. -/
theorem Layout.bytes_eq (layout : Layout space scope files entryOf) {file : Path} (member : file ∈ files)
    {bytes held : Bytes}
    {mode : Nat} (read : space.readFile file.toText = .ok bytes)
    (there : space.tree.get? (entryOf file) = some (.file held mode)) : held = bytes := by
  cases layout with
  | sited sited =>
    obtain ⟨plain, place, node, looked, _⟩ := Workspace.readFile_found read
    have unlinked : ∀ target, space.tree.get? (entryOf file) ≠ some (.link target) := by
      intro target link
      cases there.symm.trans link
    have reach := find_of_lookup looked
    rw [(sited.site file member).find (.refl space.tree) space.directory true fun _ => unlinked, Tree.endAt, there] at reach
    split at reach
    · cases reach
    · obtain ⟨rfl, rfl⟩ := Tree.Found.node.inj (Except.ok.inj reach)
      rw [Workspace.readFile, looked, Workspace.naming, if_neg (Bool.eq_false_iff.mp plain)] at read
      exact Except.ok.inj read
  | linked linked =>
    obtain ⟨_, _, target, link⟩ := linked.site
    cases there.symm.trans link

theorem Foretold.unchanged {refusals : Nat → Refusals} {hook : Hook} {options : FileOptions} {token : Nat → Text}
    {after : Workspace} {outcomes : List FileOutcome}
    (foretold : Foretold refusals hook options token files entryOf space after outcomes)
    (layout : Layout space scope files entryOf) (clean : outcomes.filterMap FileOutcome.failure? = [])
    (same : after.Same space) :
    ∀ told ∈ files.mapIdx fun index file => outlookUnder (refusals index) space options file.toText,
      told.change? = none := by
  intro told among
  obtain ⟨index, inside, rfl⟩ := List.mem_mapIdx.mp among
  have insideToo : index < outcomes.length := foretold.count ▸ inside
  obtain ⟨written, foretells, leaves⟩ :=
    foretold.each index _ _ (List.getElem?_eq_getElem inside) (List.getElem?_eq_getElem insideToo)
  generalize outlookUnder (refusals index) space options files[index].toText = told at foretells
  generalize ended : outcomes[index] = outcome at foretells
  cases foretells with
  | settled unchanged => exact unchanged
  | hindered =>
    have failed := List.filterMap_eq_nil_iff.mp clean _ (List.getElem_mem insideToo)
    rw [ended] at failed
    cases failed
  | written read decoded changed clear holds =>
    obtain ⟨mode, _, stands⟩ := leaves
    rw [same.standing] at stands
    exact absurd (layout.bytes_eq (List.getElem_mem inside) read stands) (encoded_ne decoded changed holds)

end Corpus

theorem Tally.changed_eq_zero_iff (scope : Text) (preview : Bool) (scanned : Nat) (outcomes : List FileOutcome) :
    (Tally.ofOutcomes scope preview scanned outcomes).changed = 0 ↔ ∀ outcome ∈ outcomes, outcome.change? = none := by
  have counted : (Tally.ofOutcomes scope preview scanned outcomes).changed =
      (outcomes.filterMap FileOutcome.change?).length := by
    rw [← @Tally.changed_eq scope preview scanned outcomes]
    rfl
  rw [counted, List.length_eq_zero_iff, List.filterMap_eq_nil_iff]

namespace Command

theorem exitStatus_check_iff (tally : Tally) :
    exitStatus true tally = .ok () ↔ tally.failures = [] ∧ tally.changed = 0 := by
  rw [exitStatus]
  cases failures : tally.failures with
  | cons failure rest => simp
  | nil =>
    have positive : Figure.isPositive tally.changed = decide (0 < tally.changed) := rfl
    simp only [List.isEmpty_nil, Bool.not_true, Bool.false_eq_true, if_false, Bool.true_and, positive, decide_eq_true_eq,
      true_and]
    split
    next some => simp [Nat.ne_of_gt some]
    next none => simp [Nat.eq_zero_of_not_pos none]

end Command

namespace Workspace

open Command

variable {space : Workspace} {options : RunOptions} {means : RunMeans} {files : List Path}

theorem scene_previewed (refusals : Nat → Refusals) (plan : Plan) (checking : RunMeans) (files : List Path) :
    (space.revisedUnder refusals plan options.previewed checking files).1 = ⟨space, []⟩ := by
  by_cases number : options.concurrencyValue = .nan
  · have other : options.previewed.concurrencyValue = .nan := number
    rw [revisedUnder_of_nan plan _ other]
  · rw [revisedUnder_previewed _ plan checking files number]

/-- A check of some files accepts exactly when the run on them has no failure and leaves all as it was; it then makes no
call that could change anything. -/
theorem revisedUnder_checked {refusals : RunRefusals} (plan : Plan) (wellFormed : space.tree.WellFormed)
    (real : options.preview = false) (steady : means.hook.Steady)
    (taken : space.TakesOnUnder refusals.opening options files)
    (fresh : Corpus.FreshTokens means.token files.length space.tree) (checking : RunMeans) {told tally : Tally}
    (previews : told = space.tallyOf options.previewed files
      (space.revisedUnder refusals.calls plan options.previewed checking files).2)
    (runs : tally = space.tallyOf options files (space.revisedUnder refusals.calls plan options means files).2) :
    (exitStatus true told = .ok () ↔
      tally.failures = [] ∧ (space.revisedUnder refusals.calls plan options means files).1.space.Same space) ∧
    (exitStatus true told = .ok () ↔ tally.failures = [] ∧ tally.changed = 0) ∧
    (exitStatus true told = .ok () → (space.revisedUnder refusals.calls plan options means files).1 = ⟨space, []⟩) := by
  rw [exitStatus_check_iff, previews, runs]
  by_cases number : options.concurrencyValue = .nan
  · have other : options.previewed.concurrencyValue = .nan := number
    rw [revisedUnder_of_nan plan _ number, revisedUnder_of_nan plan _ other]
    have same : space.Same space := ⟨rfl, fun _ => rfl⟩
    exact ⟨⟨fun _ => ⟨rfl, same⟩, fun _ => ⟨rfl, rfl⟩⟩, ⟨fun _ => ⟨rfl, rfl⟩, fun _ => ⟨rfl, rfl⟩⟩, fun _ => rfl⟩
  · rw [revisedUnder_previewed _ plan checking files number]
    obtain ⟨entryOf, layout, foretold⟩ := revised_laid refusals plan wellFormed steady taken fresh real number
    have idle : (space.tallyOf options.previewed files (space.outlooks refusals.calls plan options files)).changed = 0 →
        space.revisedUnder refusals.calls plan options means files =
          (⟨space, []⟩, space.outlooks refusals.calls plan options files) := by
      intro none
      exact revisedUnder_glances _ plan means number (.inr ((Tally.changed_eq_zero_iff _ _ _ _).mp none))
    have ends : (space.tallyOf options files (space.revisedUnder refusals.calls plan options means files).2).failures =
        [] → (space.revisedUnder refusals.calls plan options means files).2 =
          space.outlooks refusals.calls plan options files := by
      intro clean
      refine foretold.same fun failure member => ?_
      rw [show List.filterMap _ _ = [] from clean] at member
      cases member
    refine ⟨⟨?_, ?_⟩, ⟨?_, ?_⟩, ?_⟩
    · rintro ⟨clean, none⟩
      rw [idle none]
      exact ⟨clean, rfl, fun _ => rfl⟩
    · rintro ⟨clean, same⟩
      have unchanged := foretold.unchanged layout clean same
      rw [ends clean] at clean
      exact ⟨clean, (Tally.changed_eq_zero_iff _ _ _ _).mpr unchanged⟩
    · rintro ⟨clean, none⟩
      rw [idle none]
      exact ⟨clean, none⟩
    · rintro ⟨clean, none⟩
      have same := ends clean
      rw [same] at clean none
      exact ⟨clean, none⟩
    · rintro ⟨_, none⟩
      rw [idle none]

end Workspace

namespace Command

def ApplyFlags.checked (flags : ApplyFlags) : ApplyFlags := { flags with check := true }

def ApplyFlags.actual (flags : ApplyFlags) : ApplyFlags := { flags with check := false, dryRun := false }

theorem ApplyFlags.runOptions_checked (flags : ApplyFlags) (scope encoding : Option Text) :
    flags.checked.runOptions scope encoding = (flags.actual.runOptions scope encoding).previewed := by
  simp only [runOptions, checked, actual, RunOptions.previewed, Bool.or_true]

section

variable {library : Library} (flags : ApplyFlags) (scope encoding : Option Text) {means : RunMeans}

/-- A check leaves the workspace as it is. If it returns a report, so does the run with the same flags that is no check,
and the exit status of the check accepts its report exactly when that run has no failure and leaves every path as it
was, which is when it has no failure and no changed file; it then makes no call that could change anything. -/
theorem runApply_checked [Schema.Validation] (refusals : RunRefusals) (wellFormed : library.space.tree.WellFormed)
    (steady : means.hook.Steady)
    (fresh : ∀ files, library.space.TakesOnUnder refusals.opening (flags.actual.runOptions scope encoding) files →
      Corpus.FreshTokens means.token files.length library.space.tree) (checking : RunMeans) :
    (runApplyUnder refusals library flags.checked scope encoding checking).scene = ⟨library.space, []⟩ ∧
    ∀ report, (runApplyUnder refusals library flags.checked scope encoding checking).outcome = .ok report →
      ∃ actual, (runApplyUnder refusals library flags.actual scope encoding means).outcome = .ok actual ∧
        (exitStatus true report.tally = .ok () ↔ actual.tally.failures = [] ∧
          (runApplyUnder refusals library flags.actual scope encoding means).scene.space.Same library.space) ∧
        (exitStatus true report.tally = .ok () ↔ actual.tally.failures = [] ∧ actual.tally.changed = 0) ∧
        (exitStatus true report.tally = .ok () →
          (runApplyUnder refusals library flags.actual scope encoding means).scene = ⟨library.space, []⟩) := by
  have same : flags.checked.validate = flags.actual.validate := rfl
  rw [runApplyUnder, runApplyUnder, same]
  cases flags.actual.validate with
  | error failure => exact ⟨rfl, fun report returned => by cases returned⟩
  | ok =>
    simp only [ApplyFlags.runOptions_checked]
    generalize wanted : flags.actual.runOptions scope encoding = options at fresh
    have real : options.preview = false := wanted ▸ rfl
    cases loads : library.loadPlan options.rules options.phrases ⟨options.directory, none⟩ with
    | error failure =>
      have loadsToo : library.loadPlan options.previewed.rules options.previewed.phrases
          ⟨options.previewed.directory, none⟩ = .error failure := loads
      rw [Library.runUnder_unloaded loadsToo]
      exact ⟨rfl, fun report returned => by cases returned⟩
    | ok loaded =>
      have loadsToo : library.loadPlan options.previewed.rules options.previewed.phrases
          ⟨options.previewed.directory, none⟩ = .ok loaded := loads
      obtain ⟨checkScene, checkOutcome⟩ := Library.runUnder_loaded loadsToo refusals checking
      obtain ⟨runScene, runOutcome⟩ := Library.runUnder_loaded loads refusals means
      rw [checkScene, checkOutcome, runScene, runOutcome]
      by_cases some : ∃ files, library.space.TakesOnUnder refusals.opening options files
      · obtain ⟨files, taken⟩ := some
        rw [Workspace.reviseCorpusUnder_taken taken.previewed, Workspace.reviseCorpusUnder_taken taken]
        refine ⟨Workspace.scene_previewed refusals.calls loaded.plan checking files, fun report returned => ?_⟩
        obtain rfl := Except.ok.inj returned
        exact ⟨_, rfl, Workspace.revisedUnder_checked loaded.plan wellFormed real steady taken (fresh files taken)
          checking rfl rfl⟩
      · obtain ⟨failure, fails⟩ := Workspace.reviseCorpusUnder_refused loaded.plan (not_exists.mp some)
        rw [(fails refusals checking rfl).1]
        exact ⟨rfl, fun report returned => by cases returned⟩

end

private def checkedLibrary : Library :=
  ⟨units "/data", ⟨⟨[(.ofText (units "/a.ts"), .file [0x78] 0o644),
    (.ofText (units "/p.json"),
      .file (Utf8.encode (units "\x7b\"name\":\"p\",\"entries\":[[\"x\",\"y\"]]\x7d")) 0o644)]⟩, .root⟩⟩

private def checkedFlags : ApplyFlags := ⟨[], [units "p.json"], none, none, none, false, false, false, true, none⟩

private def checkedMeans : RunMeans :=
  ⟨⟨[], [], [], [], [], [], fun _ => []⟩, .silent, .turns, fun _ => units "0a-1f", .zero⟩

/-- The check refuses, and the run rewrites the file. -/
theorem runApply_checked_refused : ∃ report actual,
    (runApply checkedLibrary checkedFlags.checked (some (units "a.ts")) none checkedMeans).outcome = .ok report ∧
      (runApply checkedLibrary checkedFlags.actual (some (units "a.ts")) none checkedMeans).outcome = .ok actual ∧
      exitStatus true report.tally = .error (.wouldChange 1) ∧ actual.tally.failures = [] ∧
      ¬ (runApply checkedLibrary checkedFlags.actual (some (units "a.ts")) none checkedMeans).scene.space.Same
        checkedLibrary.space := by
  have wellFormed : checkedLibrary.space.tree.WellFormed := ⟨by decide +kernel, by decide +kernel⟩
  have steady : checkedMeans.hook.Steady := ⟨fun _ _ => rfl, fun _ _ _ => rfl⟩
  have taken : checkedLibrary.space.TakesOn (checkedFlags.actual.runOptions (some (units "a.ts")) none)
      [.ofText (units "/a.ts")] := ⟨by decide +kernel, by decide +kernel⟩
  have fresh : ∀ files, checkedLibrary.space.TakesOnUnder RunRefusals.none.opening
      (checkedFlags.actual.runOptions (some (units "a.ts")) none) files →
      Corpus.FreshTokens checkedMeans.token files.length checkedLibrary.space.tree := by
    intro files other
    obtain rfl := Except.ok.inj (taken.collected.symm.trans other.collected)
    exact ⟨by decide +kernel, by decide +kernel, by decide +kernel⟩
  obtain ⟨_, checks⟩ :=
    runApply_checked checkedFlags (some (units "a.ts")) none .none wellFormed steady fresh checkedMeans
  have refused : (runApply checkedLibrary checkedFlags.checked (some (units "a.ts")) none checkedMeans).outcome.map
      (fun report => exitStatus true report.tally) = .ok (.error (.wouldChange 1)) := by decide +kernel
  have clean : (runApplyUnder .none checkedLibrary checkedFlags.actual (some (units "a.ts")) none
      checkedMeans).outcome.map (fun actual => actual.tally.failures) = .ok [] := by decide +kernel
  cases returned : (runApply checkedLibrary checkedFlags.checked (some (units "a.ts")) none checkedMeans).outcome with
  | error failure => rw [returned] at refused; cases refused
  | ok report =>
    obtain ⟨actual, ran, decides, _⟩ := checks report returned
    rw [returned] at refused
    rw [ran] at clean
    have status : exitStatus true report.tally = .error (.wouldChange 1) := Except.ok.inj refused
    have none : actual.tally.failures = [] := Except.ok.inj clean
    refine ⟨report, actual, rfl, ran, status, none, fun same => ?_⟩
    cases status.symm.trans (decides.mpr ⟨none, same⟩)

end Command

end Emend

import Emend.Proofs.RuleFilling
import Emend.Proofs.RunAnswers
import Emend.Proofs.RunOrder
import Emend.Schema.Traversal

/-! When a run fails. It does so only before it has read the first file, and then it has done nothing. From there on it
returns a report, whatever the files hold and whichever calls fail, and each file with which something goes wrong is one
of the failures in it. -/

namespace Emend

open Text

namespace Workspace

variable {space : Workspace} {plan : Plan} {options : RunOptions} {means : RunMeans} {files : List Path}

def scripts (space : Workspace) (plan : Plan) (options : RunOptions) (means : RunMeans) (files : List Path) :
    Nat → Script FileOutcome :=
  Corpus.scriptAt (options.fileOptions plan (space.directoryOf options.directory)) means.token (files.map Path.toText)

def opening (space : Workspace) (plan : Plan) (options : RunOptions) (means : RunMeans) (files : List Path) :
    Corpus.Progress :=
  .start (space.scripts plan options means files) (Pool.limitOf options.concurrencyValue files.length)
    (files.map Path.toText) ⟨space, []⟩

/-- Each file of a run has an outcome that its own replies have led to. -/
def Settles (space : Workspace) (plan : Plan) (options : RunOptions) (means : RunMeans) (files : List Path)
    (outcomes : List FileOutcome) : Prop :=
  Corpus.Settled (options.fileOptions plan (space.directoryOf options.directory)) means.token (files.map Path.toText)
    outcomes

/-- A run that has begun with its files comes to an end, with an outcome for each of them. It has no other way to go,
whatever its calls are answered. -/
theorem opening_settles (number : options.concurrencyValue ≠ .nan) {count : Nat} {progress : Corpus.Progress}
    (turns : Corpus.Turns (space.scripts plan options means files) (space.opening plan options means files) count
      progress) :
    count ≤ Corpus.stepsPerFile * files.length ∧
    (progress.queue ≠ [] → ∃ after, Corpus.Turn (space.scripts plan options means files) progress after) ∧
    (progress.queue = [] → space.Settles plan options means files (progress.pool.resultList.filterMap id)) := by
  refine ⟨?_, fun busy => ⟨_, Corpus.turn_step busy .silent 0⟩, fun idle => ?_⟩
  · have bounded := turns.bounded (Corpus.orderly_scriptAt _ _ _)
    rwa [List.length_map] at bounded
  · exact turns.settled (Pool.limitOf_pos number files.length) idle

theorem revisedUnder_settles (refusals : Nat → Refusals) (plan : Plan) (means : RunMeans) (files : List Path)
    (number : options.concurrencyValue ≠ .nan) :
    space.Settles plan options means files (space.revisedUnder refusals plan options means files).2 :=
  Corpus.reviseAllUnder_settled (Pool.limitOf_pos number files.length) refusals means.hook means.schedule

end Workspace

namespace Library

/-- A run that fails leaves everything as it was. One that has loaded its plan and takes on some files does not fail:
none of its rules does on any text, and each file has an outcome, which is a failure exactly when something has gone
wrong with that file. So it is in every course that such a run can take, whatever its calls are answered. -/
theorem run_fails_early [Schema.Validation] (refusals : RunRefusals) (library : Library) (options : RunOptions)
    (means : RunMeans) :
    (∀ failure, (library.runUnder refusals options means).outcome = .error failure →
      (library.runUnder refusals options means).scene = ⟨library.space, []⟩) ∧
    ∀ loaded files, library.loadPlan options.rules options.phrases ⟨options.directory, none⟩ = .ok loaded →
      library.space.TakesOnUnder refusals.opening options files →
      (∀ rule ∈ loaded.plan.rules, ∀ text, ∀ found ∈ rule.pattern.matchesIn text,
        rule.replacement.render found.captures = .ok (rule.replacement.fill found.captures)) ∧
      (∃ report outcomes, (library.runUnder refusals options means).outcome = .ok report ∧
        report.tally = library.space.tallyOf options files outcomes ∧
        report.tally.failures = outcomes.filterMap FileOutcome.failure? ∧
        (options.concurrencyValue ≠ .nan → library.space.Settles loaded.plan options means files outcomes)) ∧
      (options.concurrencyValue ≠ .nan → ∀ count progress,
        Corpus.Turns (library.space.scripts loaded.plan options means files)
          (library.space.opening loaded.plan options means files) count progress →
        count ≤ Corpus.stepsPerFile * files.length ∧
        (progress.queue ≠ [] →
          ∃ after, Corpus.Turn (library.space.scripts loaded.plan options means files) progress after) ∧
        (progress.queue = [] →
          library.space.Settles loaded.plan options means files (progress.pool.resultList.filterMap id))) := by
  refine ⟨fun failure failed => ?_, fun loaded files loads taken => ⟨fun rule _ text found member => rule.render_eq member,
    ?_, fun number count progress turns => Workspace.opening_settles number turns⟩⟩
  · cases loads : library.loadPlan options.rules options.phrases ⟨options.directory, none⟩ with
    | error failure => rw [runUnder_unloaded loads]
    | ok loaded =>
      obtain ⟨scene, outcome⟩ := runUnder_loaded loads refusals means
      by_cases some : ∃ files, library.space.TakesOnUnder refusals.opening options files
      · obtain ⟨files, taken⟩ := some
        rw [outcome, Workspace.reviseCorpusUnder_taken taken] at failed
        cases failed
      · have stopped : ∃ failure, (library.space.reviseCorpusUnder refusals loaded.plan options means).2 =
            (⟨library.space, []⟩, .error failure) :=
          Workspace.reviseCorpusUnder_stopped fun files taken => some ⟨files, taken⟩
        obtain ⟨failure, stopped⟩ := stopped
        rw [scene, stopped]
  · obtain ⟨_, outcome⟩ := runUnder_loaded loads refusals means
    rw [Workspace.reviseCorpusUnder_taken taken] at outcome
    exact ⟨_, _, outcome, rfl, rfl, Workspace.revisedUnder_settles refusals.calls loaded.plan means files⟩

private def torn : Library :=
  ⟨units "/data", ⟨⟨[(.ofText (units "/a.ts"), .file [0x78, 0xFF] 0o644),
    (.ofText (units "/p.json"),
      .file (Utf8.encode (units "\x7b\"name\":\"p\",\"entries\":[[\"x\",\"y\"]]\x7d")) 0o644)]⟩, .root⟩⟩

private def tornOptions (scope : String) : RunOptions :=
  ⟨[], [units "p.json"], some (units scope), none, false, none, none, none, none, none⟩

private def tornMeans : RunMeans :=
  ⟨⟨[], [], [], [], [], [], fun _ => []⟩, .silent, .turns, fun _ => units "0a-1f", .zero⟩

/-- No directory may be opened. -/
private def tornRefusals : RunRefusals := ⟨fun _ => some .accessDenied, fun _ => .none⟩

/-- A run on the file returns, with the file as its one failure. A run on the directory fails. -/
theorem run_fails_early_torn :
    (∃ report, ∃ outcomes : List FileOutcome,
      (torn.runUnder tornRefusals (tornOptions "a.ts") tornMeans).outcome = .ok report ∧
      outcomes.length = 1 ∧ report.tally.failures = outcomes.filterMap FileOutcome.failure? ∧
      report.tally.failures.length = 1) ∧
    ∃ failure, (torn.runUnder tornRefusals (tornOptions ".") tornMeans).outcome = .error failure ∧
      (torn.runUnder tornRefusals (tornOptions ".") tornMeans).scene = ⟨torn.space, []⟩ := by
  have settled := run_fails_early tornRefusals torn (tornOptions "a.ts") tornMeans
  have fails := run_fails_early tornRefusals torn (tornOptions ".") tornMeans
  constructor
  · have taken : torn.space.TakesOnUnder tornRefusals.opening (tornOptions "a.ts") [.ofText (units "/a.ts")] :=
      ⟨by decide +kernel, by decide +kernel⟩
    have readable : (torn.loadPlan [] [units "p.json"] ⟨none, none⟩).toBool = true := by decide +kernel
    have failed : (torn.runUnder tornRefusals (tornOptions "a.ts") tornMeans).outcome.map
        (fun report => report.tally.failures.length) = .ok 1 := by decide +kernel
    cases loads : torn.loadPlan [] [units "p.json"] ⟨none, none⟩ with
    | error failure =>
      rw [loads] at readable
      cases readable
    | ok loaded =>
      obtain ⟨_, ⟨report, outcomes, returned, _, failures, settles⟩, _⟩ := settled.2 loaded _ loads taken
      rw [returned] at failed
      exact ⟨report, outcomes, returned, (settles (by decide)).count, failures, Except.ok.inj failed⟩
  · have stopped : (torn.runUnder tornRefusals (tornOptions ".") tornMeans).outcome.toBool = false := by
      decide +kernel
    cases failed : (torn.runUnder tornRefusals (tornOptions ".") tornMeans).outcome with
    | ok report =>
      rw [failed] at stopped
      cases stopped
    | error failure => exact ⟨failure, rfl, fails.1 failure failed⟩

end Library

end Emend

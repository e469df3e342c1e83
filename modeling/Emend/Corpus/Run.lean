import Emend.Corpus.Collect
import Emend.Corpus.File
import Emend.Corpus.Refusal
import Emend.Corpus.Trace
import Emend.Pool

/-! A run on a workspace: load, check the boundary, collect, and revise the files, several at a
time. Which of the files in progress makes the next file system call is up to a schedule. -/

namespace Emend

open Text (dot)

structure RunOptions where
  rules : List Text
  phrases : List Text
  scope : Option Text
  directory : Option Text
  preview : Bool
  extensions : Option (List Text)
  excluded : Option (List Text)
  encoding : Option Text
  concurrency : Option Binary64
  level : Option Binary64

namespace RunOptions

def encodingName (options : RunOptions) : Text := options.encoding.getD (units "utf8")

def concurrencyValue (options : RunOptions) : Binary64 := options.concurrency.getD (.ofNat 8)

def verbosity (options : RunOptions) : Verbosity := .ofLevel (options.level.getD .zero)

def scopeText (options : RunOptions) : Text := options.scope.getD [dot]

end RunOptions

structure Announcement where
  path : Text
  text : Text
  revised : Text
  deriving DecidableEq, Repr

/-- What a caller does when a file is about to be written. It may change the workspace, and it may
refuse. -/
abbrev Hook := Workspace → Announcement → Workspace × Except Fault Unit

def Hook.silent : Hook := fun space _ => (space, .ok ())

structure Scene where
  space : Workspace
  announced : List Announcement

namespace Script

def answering (scene : Scene) (result : Except FileError Workspace) : Scene × Except Fault Unit :=
  match result with
  | .ok space => ({ scene with space }, .ok ())
  | .error error => (scene, .error (.call error))

def step {α : Type} (hook : Hook) (scene : Scene) : Script α → Scene × Script α
  | .done value => (scene, .done value)
  | .read path next =>
    (scene, next ((scene.space.readFile path).mapError .call))
  | .stat path next => (scene, next ((scene.space.mode path).mapError .call))
  | .write path bytes mode next =>
    let (after, answer) := answering scene (scene.space.writeFile path bytes mode)
    (after, next answer)
  | .rename source target next =>
    let (after, answer) := answering scene (scene.space.rename source target)
    (after, next answer)
  | .remove path next =>
    let (after, answer) := answering scene (scene.space.remove path)
    (after, next answer)
  | .announce path text revised next =>
    let announcement := ⟨path, text, revised⟩
    let (space, answer) := hook scene.space announcement
    (⟨space, scene.announced ++ [announcement]⟩, next answer)

def run {α : Type} (hook : Hook) (scene : Scene) : Script α → Scene × α
  | .done value => (scene, value)
  | .read path next =>
    (next ((scene.space.readFile path).mapError .call)).run hook scene
  | .stat path next =>
    (next ((scene.space.mode path).mapError .call)).run hook scene
  | .write path bytes mode next =>
    let (after, answer) := answering scene (scene.space.writeFile path bytes mode)
    (next answer).run hook after
  | .rename source target next =>
    let (after, answer) := answering scene (scene.space.rename source target)
    (next answer).run hook after
  | .remove path next =>
    let (after, answer) := answering scene (scene.space.remove path)
    (next answer).run hook after
  | .announce path text revised next =>
    let announcement := ⟨path, text, revised⟩
    let (space, answer) := hook scene.space announcement
    (next answer).run hook ⟨space, scene.announced ++ [announcement]⟩

end Script

/-- Says which of the waiting scripts goes next, by its place in the queue, for each step. -/
abbrev Schedule := Nat → Nat

/-- All scripts in turns, each one making one call at a time. -/
def Schedule.turns : Schedule := fun _ => 0

namespace Corpus

/-- Files in progress: the scripts that were started and are not done, the next one first. -/
structure Progress where
  scene : Scene
  pool : Pool Text FileOutcome Fault
  queue : List (Nat × Script FileOutcome)

/-- The scripts of the files that a pool has started since another state of it. -/
def newScripts (script : Nat → Script FileOutcome) (before after : Pool Text FileOutcome Fault) :
    List (Nat × Script FileOutcome) :=
  (after.started.drop before.started.length).map fun index => (index, script index)

/-- Let the script at a place in the queue make its next call, or leave when it is done. -/
def Progress.step (script : Nat → Script FileOutcome) (hook : Hook) (place : Nat)
    (progress : Progress) : Progress :=
  let place := place % progress.queue.length
  match progress.queue[place]? with
  | none => progress
  | some (index, .done outcome) =>
    let pool := progress.pool.complete index (.ok outcome)
    { progress with
      pool
      queue := progress.queue.eraseIdx place ++ newScripts script progress.pool pool }
  | some (index, waiting) =>
    let (scene, left) := waiting.step hook progress.scene
    { progress with scene, queue := progress.queue.eraseIdx place ++ [(index, left)] }

/-- Go on for a number of steps, or until nothing is left to do. -/
def Progress.run (script : Nat → Script FileOutcome) (hook : Hook) (schedule : Schedule) :
    Nat → Progress → Progress
  | 0, progress => progress
  | steps + 1, progress =>
    if progress.queue.isEmpty then progress
    else (progress.step script hook (schedule steps)).run script hook schedule steps

/-- More steps than any script takes: seven calls at most, and leaving. -/
def stepsPerFile : Nat := 8

def scriptAt (options : FileOptions) (token : Nat → Text) (files : List Text) (index : Nat) : Script FileOutcome :=
  match files[index]? with
  | some file => revise options (token index) file
  | none => .done .unmatched

/-- Run the scripts of files, with at most `limit` of them in progress. The outcomes are in the order of
the files. -/
def runAll (script : Nat → Script FileOutcome) (hook : Hook) (schedule : Schedule) (limit : Nat)
    (files : List Text) (scene : Scene) : Scene × List FileOutcome :=
  let pool := Pool.start limit (files.map some)
  let start : Progress := ⟨scene, pool, pool.started.map fun index => (index, script index)⟩
  let finish := start.run script hook schedule (stepsPerFile * files.length)
  (finish.scene, finish.pool.resultList.filterMap id)

def reviseAll (options : FileOptions) (token : Nat → Text) (hook : Hook) (schedule : Schedule)
    (limit : Nat) (files : List Text) (scene : Scene) : Scene × List FileOutcome :=
  runAll (scriptAt options token files) hook schedule limit files scene

def scriptUnder (refusals : Nat → Refusals) (options : FileOptions) (token : Nat → Text) (files : List Text)
    (index : Nat) : Script FileOutcome :=
  (scriptAt options token files index).under (refusals index) 0

def reviseAllUnder (refusals : Nat → Refusals) (options : FileOptions) (token : Nat → Text) (hook : Hook)
    (schedule : Schedule) (limit : Nat) (files : List Text) (scene : Scene) : Scene × List FileOutcome :=
  runAll (scriptUnder refusals options token files) hook schedule limit files scene

end Corpus

/-- How a run ends: what it said, what the caller was told, and what it left behind. -/
structure RunEnd where
  lines : List Text
  scene : Scene
  outcome : Except Failure Report

structure RunMeans where
  timing : Timing
  hook : Hook
  schedule : Schedule
  /-- Tells the temporary file of each file from all others. -/
  token : Nat → Text
  elapsedMs : Binary64

/-- Revise the corpus of a plan that has been loaded, where the system refuses some of what a run asks for. -/
def Workspace.reviseCorpusUnder (refusals : RunRefusals) (space : Workspace) (plan : Plan) (options : RunOptions)
    (means : RunMeans) : List Text × Scene × Except Failure Tally :=
  let directory := space.directoryOf options.directory
  let scope := directory.resolve options.scopeText
  let stopped (failure : Failure) : List Text × Scene × Except Failure Tally :=
    ([], ⟨space, []⟩, .error failure)
  match space.checkBoundary directory.toText scope.toText (units "Scope") with
  | .error failure => stopped failure
  | .ok () =>
    match Corpus.collectUnder refusals.opening space
      ⟨directory.toText, options.scopeText, options.extensions, options.excluded⟩ with
    | .error failure => stopped failure
    | .ok files =>
      let paths := files.map Path.toText
      let fileOptions := ⟨plan, directory.toText, options.encodingName, options.preview⟩
      let concurrency := options.concurrencyValue
      let (scene, outcomes) := Corpus.reviseAllUnder refusals.calls fileOptions means.token means.hook means.schedule
        (Pool.limitOf concurrency paths.length) paths ⟨space, []⟩
      let tally := Tally.ofOutcomes scope.toText options.preview paths.length outcomes
      (Trace.collecting options.verbosity means.timing paths.length ++
        Trace.revising options.verbosity means.timing concurrency
          (paths.map (displayPath directory.toText)) tally,
        scene, .ok tally)

/-- Revise the corpus of a plan where the system carries out every call. -/
def Workspace.reviseCorpus (space : Workspace) (plan : Plan) (options : RunOptions) (means : RunMeans) :
    List Text × Scene × Except Failure Tally :=
  space.reviseCorpusUnder .none plan options means

def Library.runUnder [Schema.Validation] (refusals : RunRefusals) (library : Library) (options : RunOptions)
    (means : RunMeans) : RunEnd :=
  match library.loadPlan options.rules options.phrases ⟨options.directory, none⟩ with
  | .error failure => ⟨[], ⟨library.space, []⟩, .error failure⟩
  | .ok loaded =>
    let lines := Trace.loading options.verbosity means.timing loaded
    let (more, scene, tally) := library.space.reviseCorpusUnder refusals loaded.plan options means
    ⟨lines ++ more, scene, tally.map fun tally =>
      ⟨tally, loaded.ruleSets, loaded.phraseTables.map Loaded.name, means.elapsedMs⟩⟩

def Library.run [Schema.Validation] (library : Library) (options : RunOptions) (means : RunMeans) : RunEnd :=
  library.runUnder .none options means

end Emend

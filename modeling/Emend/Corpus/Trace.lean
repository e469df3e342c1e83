import Emend.Duration
import Emend.Phrase
import Emend.Json.Printer
import Emend.Report
import Emend.Source

/-! The lines in which a run tells about its progress. They tell how long each part took, in words
that whoever measured it supplies. -/

namespace Emend

open Text

inductive Verbosity where
  /-- Only which files failed. -/
  | quiet
  /-- What each part did, too. -/
  | summary
  /-- Which files took longest, too. -/
  | slowFiles
  deriving DecidableEq, Repr

/-- The verbosity that a level asks for: the summary above zero, slow files from two on. -/
def Verbosity.ofLevel (level : Binary64) : Verbosity :=
  if level.ge (.ofNat 2) then slowFiles else if Binary64.lt .zero level then summary else quiet

/-- The durations of the parts of a run, as they are written. -/
structure Timing where
  load : Text
  collect : Text
  revise : Text
  read : Text
  process : Text
  write : Text
  /-- Of the files of a run, those that took longest, with their durations. -/
  slowest : List Text → List (Text × Text)

namespace Trace

def lead : Text := units "[rulecast] "

def loaded (timing : Timing) (loaded : LoadedPlan) : Text :=
  lead ++ units "loadConfig " ++ timing.load ++ units " rules=" ++ ofNat loaded.plan.rules.length ++
    units " phraseTables=" ++ ofNat loaded.plan.tables.length ++ units " phrases=" ++
    ofNat ((loaded.plan.tables.map fun table => table.entries.length).foldr (· + ·) 0)

/-- A phrase of a table that a second run would replace again. -/
def reentrance (table : Text) (found : Reentrance) : Text :=
  lead ++ units "reentrant phrase table=" ++ table ++ units " key=" ++ Json.quoted found.phrase.key ++
    units " value contains " ++ Json.quoted found.contains

def collected (timing : Timing) (count : Nat) : Text :=
  lead ++ units "collectFiles " ++ timing.collect ++ units " files=" ++ ofNat count

def boolean (value : Bool) : Text := if value then units "true" else units "false"

def revised (timing : Timing) (concurrency : Binary64) (preview : Bool) : Text :=
  lead ++ units "rewriteFiles " ++ timing.revise ++ units " concurrency=" ++ concurrency.toText ++
    units " dryRun=" ++ boolean preview

def breakdown (timing : Timing) : Text :=
  lead ++ units "breakdown read=" ++ timing.read ++ units " process=" ++ timing.process ++
    units " write=" ++ timing.write

def failed (failure : FileFailure) : Text :=
  lead ++ failure.phase.name ++ units " failed file=" ++ failure.file

def slowFile (file duration : Text) : Text :=
  lead ++ units "slowFile " ++ duration ++ units " file=" ++ file

def summary (tally : Tally) : Text :=
  lead ++ units "summary mode=" ++ (if tally.preview then units "preview" else units "apply") ++
    units " flow=" ++ ofNat tally.scanned ++ units "->" ++ ofNat tally.matched ++ units "->" ++
    ofNat tally.changed ++ units " failures=" ++ ofNat tally.failures.length ++
    units " totals=structural:" ++ ofNat tally.structural ++ units ",phrases:" ++ ofNat tally.phrases

def loading (verbosity : Verbosity) (timing : Timing) (plan : LoadedPlan) : List Text :=
  if verbosity = .quiet then []
  else loaded timing plan :: plan.phraseTables.flatMap fun table =>
    table.content.reentrances.map (reentrance table.name)

def collecting (verbosity : Verbosity) (timing : Timing) (count : Nat) : List Text :=
  if verbosity = .quiet then [] else [collected timing count]

def revising (verbosity : Verbosity) (timing : Timing) (concurrency : Binary64) (shown : List Text)
    (tally : Tally) : List Text :=
  (if verbosity = .quiet then [] else [revised timing concurrency tally.preview, breakdown timing]) ++
    tally.failures.map failed ++
    (if verbosity = .slowFiles then
      (timing.slowest shown).map fun (file, duration) => slowFile file duration
    else []) ++
    (if verbosity = .quiet then [] else [summary tally])

end Trace

end Emend

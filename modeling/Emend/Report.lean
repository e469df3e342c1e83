import Emend.Figure
import Emend.Json.Basic

/-! What a run reports: the files that some rule or phrase applied to, the files that could not be
processed, and the totals over them. The figures of a run are natural numbers, and integers for what
a file gains; a report may hold figures of other kinds. -/

namespace Emend

/-- A file that some rule or phrase applied to. -/
structure FileReport (κ : Type := Nat) (δ : Type := Int) where
  file : Text
  changed : Bool
  structural : κ
  phrases : κ
  byteDelta : δ
  deriving DecidableEq, Repr

inductive Phase where
  | read
  | write
  deriving DecidableEq, Repr

def Phase.name : Phase → Text
  | read => units "read"
  | write => units "write"

structure FileFailure where
  file : Text
  phase : Phase
  message : Text
  deriving DecidableEq, Repr

inductive FileOutcome where
  | unmatched
  | matched (report : FileReport)
  | failed (failure : FileFailure)
  deriving DecidableEq, Repr

structure Tally (κ : Type := Nat) (δ : Type := Int) where
  scope : Text
  preview : Bool
  scanned : κ
  matched : κ
  changed : κ
  structural : κ
  phrases : κ
  files : List (FileReport κ δ)
  failures : List FileFailure
  deriving DecidableEq, Repr

structure Report (κ : Type := Nat) (δ : Type := Int) where
  tally : Tally κ δ
  ruleSets : List Text
  phraseTables : List Text
  elapsedMs : Binary64
  deriving DecidableEq, Repr

def FileOutcome.report? : FileOutcome → Option FileReport
  | matched report => some report
  | _ => none

def FileOutcome.failure? : FileOutcome → Option FileFailure
  | failed failure => some failure
  | _ => none

def Tally.ofOutcomes (scope : Text) (preview : Bool) (scanned : Nat) (outcomes : List FileOutcome) : Tally :=
  let files := outcomes.filterMap FileOutcome.report?
  { scope, preview, scanned
    matched := files.length
    changed := (files.filter FileReport.changed).length
    structural := (files.map FileReport.structural).foldr (· + ·) 0
    phrases := (files.map FileReport.phrases).foldr (· + ·) 0
    files
    failures := outcomes.filterMap FileOutcome.failure? }

def FileFailure.toJson (failure : FileFailure) : Json :=
  .record [("file", .string failure.file), ("phase", .string failure.phase.name),
    ("message", .string failure.message)]

section

variable {κ δ : Type} [Figure κ] [Figure δ]

open Figure (number)

def FileReport.toJson (report : FileReport κ δ) : Json :=
  .record [("file", .string report.file), ("changed", .boolean report.changed),
    ("structuralMatches", .number (number report.structural)),
    ("phraseReplacements", .number (number report.phrases)),
    ("byteDelta", .number (number report.byteDelta))]

def Report.toJson (report : Report κ δ) : Json :=
  let tally := report.tally
  .record [("dryRun", .boolean tally.preview), ("scope", .string tally.scope),
    ("ruleSets", .ofTexts report.ruleSets), ("phraseTables", .ofTexts report.phraseTables),
    ("filesScanned", .number (number tally.scanned)), ("filesMatched", .number (number tally.matched)),
    ("filesChanged", .number (number tally.changed)),
    ("totalStructuralMatches", .number (number tally.structural)),
    ("totalPhraseReplacements", .number (number tally.phrases)), ("elapsedMs", .number report.elapsedMs),
    ("files", .array (tally.files.map FileReport.toJson)),
    ("failures", .array (tally.failures.map FileFailure.toJson))]

end

end Emend

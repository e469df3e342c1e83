import Emend.Command.Scan
import Emend.Corpus.Run

/-! The command that applies rules and phrases: its flags, the run they ask for, and when the
program's exit tells of a failure. -/

namespace Emend.Command

open Text (dot)

/-- The flags of the command. A list that was not given is no list, which matters for extensions:
an empty list wants none. -/
structure ApplyFlags where
  rules : List Text
  phrases : List Text
  extensions : Option (List Text)
  concurrency : Option Binary64
  level : Option Binary64
  json : Bool
  noColor : Bool
  dryRun : Bool
  check : Bool
  directory : Option Text

def ApplyFlags.validate (flags : ApplyFlags) : Except Failure Unit :=
  if flags.rules.isEmpty && flags.phrases.isEmpty then .error .noSource else .ok ()

/-- The run that flags and a scope ask for. A check writes nothing. -/
def ApplyFlags.runOptions (flags : ApplyFlags) (scope encoding : Option Text) : RunOptions where
  rules := flags.rules
  phrases := flags.phrases
  scope := some (scope.getD [dot])
  directory := flags.directory
  preview := flags.dryRun || flags.check
  extensions := flags.extensions
  excluded := none
  encoding := encoding
  concurrency := flags.concurrency
  level := flags.level

inductive ExitError (κ : Type := Nat) where
  | failed (count : Nat)
  | wouldChange (count : κ)
  deriving DecidableEq, Repr

def ExitError.message {κ : Type} [Figure κ] : ExitError κ → Text
  | failed count => Figure.counted count "file" "files" ++ units " could not be processed."
  | wouldChange count =>
    units "Check failed: " ++ Figure.counted count "file" "files" ++ units " would be rewritten."

/-- A run fails when files failed, and a check when files would change. -/
def exitStatus {κ δ : Type} [Figure κ] (check : Bool) (tally : Tally κ δ) :
    Except (ExitError κ) Unit :=
  if !tally.failures.isEmpty then .error (.failed tally.failures.length)
  else if check && Figure.isPositive tally.changed then .error (.wouldChange tally.changed)
  else .ok ()

def runApplyUnder [Schema.Validation] (refusals : RunRefusals) (library : Library) (flags : ApplyFlags)
    (scope encoding : Option Text) (means : RunMeans) : RunEnd :=
  match flags.validate with
  | .error failure => ⟨[], ⟨library.space, []⟩, .error failure⟩
  | .ok () => library.runUnder refusals (flags.runOptions scope encoding) means

def runApply [Schema.Validation] (library : Library) (flags : ApplyFlags) (scope encoding : Option Text)
    (means : RunMeans) : RunEnd :=
  runApplyUnder .none library flags scope encoding means

/-- A switch is on when it was given with a word for yes. -/
def isOn (values : List Bool) : Bool := values.head?.getD false

def given? {α : Type} (values : List α) : Option (List α) :=
  if values.isEmpty then none else some values

def ApplyFlags.read (given : Given) : Except (List ArgumentError) (ApplyFlags × Option Text) := do
  let texts (name : String) := given.read name Except.ok
  let (rules, phrases, extensions, concurrency, level, json, noColor, dryRun, check, directory) ←
    alongside (texts "rules") <| alongside (texts "phrases") <|
    alongside (given.read "ext" readExtension) <|
    alongside (given.read "concurrency" readConcurrency) <|
    alongside (given.read "verbose" readLevel) <| alongside (given.read "json" readBoolean) <|
    alongside (given.read "no-color" readBoolean) <| alongside (given.read "dry-run" readBoolean) <|
    alongside (given.read "check" readBoolean) (texts "cwd")
  .ok ({ rules, phrases
         extensions := given? extensions
         concurrency := concurrency.head?
         level := level.head?
         json := isOn json
         noColor := isOn noColor
         dryRun := isOn dryRun
         check := isOn check
         directory := directory.head? }, given.arguments.head?)

end Emend.Command

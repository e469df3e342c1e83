import Emend.Command.Apply
import Emend.Schema.Traversal
import Emend.Command.Help
import Emend.Command.Output

/-! The program: which command some words call, and what it prints and leaves behind. -/

namespace Emend.Command

open Text (dot hyphen lineFeed)

inductive Call where
  | help (interface : Option Interface) (request : HelpRequest)
  | unknown (word : Text)
  | command (interface : Interface) (words : List Text)
  deriving DecidableEq, Repr

/-- The help that a word asks for, wherever it stands. Of the letters after a hyphen, all of which
must ask for help, the first one counts. -/
def helpRequest? (word : Text) : Option HelpRequest :=
  if word = units "--help" then some .brief
  else if word = units "--helpAll" then some .full
  else match word with
    | hyphen :: letter :: others =>
      if others.all (units "hH").contains then
        if letter = 0x68 then some .brief else if letter = 0x48 then some .full else none
      else none
    | _ => none

/-- What words call. Help is for the command when its name came first, else for the program. The
first request for help counts. -/
def Call.ofWords (words : List Text) : Call :=
  match words with
  | [] => .help none .brief
  | word :: rest =>
    match helpRequest? word with
    | some request => .help none request
    | none =>
      match interfaces.find? (·.name = word) with
      | none => .unknown word
      | some interface =>
        match rest.findSome? helpRequest? with
        | some request => .help (some interface) request
        | none => .command interface rest

/-- The directory in which some words tell the program to work, if they call for work on files. -/
def workplace? (words : List Text) : Option Text :=
  match Call.ofWords words with
  | .command interface words =>
    if interface.name = applyInterface.name then
      match Given.ofWords interface words with
      | .ok given => some ((given.inputs (units "cwd")).head?.getD [dot])
      | .error _ => none
    else none
  | _ => none

structure Exit where
  code : Int
  output : Text
  errors : Text
  scene : Scene

def badArguments : Int := -4

def unknownCommand : Int := -5

def errorText (message : Text) : Text :=
  if message.isEmpty then units "Error" else units "Error: " ++ message

def line (t : Text) : Text := t ++ [lineFeed]

def unknownMessage (word : Text) : Text :=
  let meant := suggestions word (interfaces.map Interface.name)
  let ticked (t : Text) : Text := [0x60] ++ t ++ [0x60]
  units "No command registered for " ++ ticked word ++
    (if meant.isEmpty then []
    else units ", did you mean " ++ alternatives (meant.map ticked) ++ units "?")

def badArgumentLines (errors : List ArgumentError) : Text :=
  errors.flatMap fun error =>
    line (units "Unable to parse arguments, " ++ errorText error.message)

def failedLine (message : Text) : Text := line (units "Command failed, " ++ errorText message)

structure Surroundings where
  library : Library
  means : RunMeans
  wording : Wording
  terminal : Bool

def printReport (flags : ApplyFlags) (terminal : Bool) (report : Report) : Text :=
  if flags.json then line report.toJson.pretty
  else line (report.tally.format (terminal && !flags.noColor))

/-- Carry out the command that applies rules and phrases. Its progress is told only when asked
for. -/
def applyExit (around : Surroundings) (flags : ApplyFlags) (scope : Option Text) : Exit :=
  let finished := runApply around.library flags scope none around.means
  let told := if flags.level.any (!·.isZero) then finished.lines.flatMap line else []
  match finished.outcome with
  | .error failure =>
    ⟨1, [], told ++ failedLine (failure.message around.wording), finished.scene⟩
  | .ok report =>
    let output := printReport flags around.terminal report
    match exitStatus flags.check report.tally with
    | .ok () => ⟨0, output, told, finished.scene⟩
    | .error error => ⟨1, output, told ++ failedLine error.message, finished.scene⟩

def readPresetFlags (given : Given) : Except (List ArgumentError) (Bool × Bool) := do
  let (json, noColor) ← alongside (given.read "json" readBoolean) (given.read "no-color" readBoolean)
  .ok (isOn json, isOn noColor)

def presetsOutput (data : Text) (json colored : Bool) : Text :=
  let presets := PresetInfo.list data
  if json then line (Json.array (presets.map PresetInfo.toJson)).pretty
  else line (PresetInfo.format colored presets)

def commandExit (around : Surroundings) (interface : Interface) (words : List Text) : Exit :=
  let scene : Scene := ⟨around.library.space, []⟩
  let refused (errors : List ArgumentError) : Exit := ⟨badArguments, [], badArgumentLines errors, scene⟩
  match Given.ofWords interface words with
  | .error error => refused [error]
  | .ok given =>
    if interface.name = applyInterface.name then
      match ApplyFlags.read given with
      | .error errors => refused errors
      | .ok (flags, scope) => applyExit around flags scope
    else
      match readPresetFlags given with
      | .error errors => refused errors
      | .ok (json, noColor) =>
        ⟨0, presetsOutput around.library.data json (around.terminal && !noColor), [], scene⟩

def run (around : Surroundings) (words : List Text) : Exit :=
  let scene : Scene := ⟨around.library.space, []⟩
  match Call.ofWords words with
  | .help none request => ⟨0, programHelp request, [], scene⟩
  | .help (some interface) request => ⟨0, interface.help request, [], scene⟩
  | .unknown word => ⟨unknownCommand, [], line (unknownMessage word), scene⟩
  | .command interface words => commandExit around interface words

end Emend.Command

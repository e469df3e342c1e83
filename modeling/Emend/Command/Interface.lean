import Emend.Text.Basic

/-! The description of the command line: the commands, their flags and their arguments. Reading
arguments and writing help both go by it. -/

namespace Emend.Command

open Text

inductive FlagKind where
  /-- Nothing: the flag is there or not. -/
  | switch
  /-- A value, and several of them if repeatable. -/
  | value (placeholder : Text) (repeatable : Bool)
  deriving DecidableEq, Repr

structure Flag where
  name : Text
  kind : FlagKind
  brief : Text
  deriving DecidableEq, Repr

def Flag.repeatable (flag : Flag) : Bool :=
  match flag.kind with
  | .switch => false
  | .value _ repeatable => repeatable

structure Argument where
  placeholder : Text
  brief : Text
  deriving DecidableEq, Repr

structure Interface where
  name : Text
  brief : Text
  flags : List Flag
  arguments : List Argument
  deriving DecidableEq, Repr

def jsonFlag (brief : String) : Flag := ⟨units "json", .switch, units brief⟩

def noColorFlag : Flag := ⟨units "no-color", .switch, units "Disable colored output"⟩

def applyInterface : Interface where
  name := units "rewrite"
  brief := units "Apply structural rules and phrase tables to a corpus"
  flags := [
    ⟨units "rules", .value (units "preset|file") true,
      units "Rule set preset or JSON file, repeatable, in priority order" ++
        units " (a preset name wins; use ./name for a file)"⟩,
    ⟨units "phrases", .value (units "preset|file") true,
      units "Phrase table preset or JSON file, repeatable, one pass each in order" ++
        units " (a preset name wins; use ./name for a file)"⟩,
    ⟨units "ext", .value (units "ext") true,
      units "File extension to include, repeatable (default: .rs and TS/JS)"⟩,
    ⟨units "concurrency", .value (units "n") false,
      units "Max files processed concurrently (default: 8)"⟩,
    ⟨units "verbose", .value (units "level") false,
      units "Print tracing to stderr (1=summary, 2=includes slow files)"⟩,
    jsonFlag "Output structured JSON instead of the file list",
    noColorFlag,
    ⟨units "dry-run", .switch, units "Report changes without writing files"⟩,
    ⟨units "check", .switch, units "Fail when any file would change; writes nothing"⟩,
    ⟨units "cwd", .value (units "path") false,
      units "Working directory for resolving rule files and scope"⟩]
  arguments := [⟨units "scope", units "Corpus file or directory (defaults to current directory)"⟩]

def presetsInterface : Interface where
  name := units "presets"
  brief := units "List built-in rule sets and phrase tables"
  flags := [jsonFlag "Output structured JSON", noColorFlag]
  arguments := []

def programName : Text := units "rulecast"

def programBrief : Text := units "Rule-driven bulk rewriting of source text"

def interfaces : List Interface := [applyInterface, presetsInterface]

end Emend.Command

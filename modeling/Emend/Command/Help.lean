import Emend.Command.Interface

/-! Help texts. Columns are as wide as their widest cell, and no line ends in blanks. -/

namespace Emend.Command

open Text

/-- Which flags that print help are told about. -/
inductive HelpRequest where
  | brief
  | full
  deriving DecidableEq, Repr

structure HelpFlag where
  letter : Text
  name : Text
  brief : Text

def helpFlag : HelpFlag := ⟨units "-h", units "--help", units "Print help information and exit"⟩

def fullHelpFlag : HelpFlag :=
  ⟨units "-H", units "--helpAll",
    units "Print help information (including hidden commands/flags) and exit"⟩

def HelpRequest.flags : HelpRequest → List HelpFlag
  | brief => [helpFlag]
  | full => [helpFlag, fullHelpFlag]

def table (separators : List Text) (rows : List (List Text)) : List Text :=
  let columns := (rows.map List.length).foldl max 0
  let widths := (List.range columns).map fun column =>
    (rows.map fun row => (row[column]?.getD []).length).foldl max 0
  rows.map fun row =>
    trimEnd (units "  " ++ (row.zipIdx.map fun (cell, column) =>
      padEnd (widths[column]?.getD 0) cell ++ separators[column]?.getD []).flatten)

def Flag.usage (flag : Flag) : Text :=
  match flag.kind with
  | .switch => units "[--" ++ flag.name ++ units "]"
  | .value placeholder repeatable =>
    units "[--" ++ flag.name ++ units " " ++ placeholder ++ units "]" ++
      (if repeatable then units "..." else [])

def Flag.heading (flag : Flag) : Text :=
  units "[--" ++ flag.name ++ units "]" ++ (if flag.repeatable then units "..." else [])

def Interface.call (interface : Interface) : Text := programName ++ units " " ++ interface.name

def Interface.usage (interface : Interface) : Text :=
  join (units " ") (interface.call :: interface.flags.map Flag.usage ++
    interface.arguments.map fun argument => units "[<" ++ argument.placeholder ++ units ">]")

def helpUsage (call : Text) (request : HelpRequest) : List Text :=
  request.flags.map fun flag => units "  " ++ call ++ units " " ++ flag.name

def Interface.help (interface : Interface) (request : HelpRequest) : Text :=
  let flagRows := interface.flags.map (fun flag => [[], flag.heading, flag.brief]) ++
    request.flags.map (fun flag => [flag.letter, units " " ++ flag.name, flag.brief])
  let arguments := interface.arguments.map fun argument =>
    [units "[" ++ argument.placeholder ++ units "]", argument.brief]
  let lines :=
    [units "USAGE", units "  " ++ interface.usage] ++ helpUsage interface.call request ++
    [[], interface.brief, [], units "FLAGS"] ++ table [units " ", units "  "] flagRows ++
    (if arguments.isEmpty then [] else [[], units "ARGUMENTS"] ++ table [units "  "] arguments)
  join [lineFeed] lines ++ [lineFeed]

def programHelp (request : HelpRequest) : Text :=
  let flagRows := request.flags.map fun flag => [flag.letter, flag.name, flag.brief]
  let lines :=
    [units "USAGE"] ++ interfaces.map (fun interface => units "  " ++ interface.usage) ++
    helpUsage programName request ++
    [[], programBrief, [], units "FLAGS"] ++ table [units " ", units "  "] flagRows ++
    [[], units "COMMANDS"] ++
    table [units "  "] (interfaces.map fun interface => [interface.name, interface.brief])
  join [lineFeed] lines ++ [lineFeed]

end Emend.Command

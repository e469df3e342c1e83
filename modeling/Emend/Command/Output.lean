import Emend.Command.Style
import Emend.Preset.Catalogue
import Emend.Report

/-! What the commands print: the changed files and the totals of a run, and the list of presets. -/

namespace Emend

open Text

section

variable {κ δ : Type} [Figure κ]

namespace FileReport

def line (colored preview : Bool) (report : FileReport κ δ) : Text :=
  Style.green.paint colored (units (if preview then "~" else "M")) ++ units " " ++
    Style.bold.paint colored report.file ++ units "  " ++
    Style.gray.paint colored
      (units "structural=" ++ Figure.toText report.structural ++ units " phrases=" ++
        Figure.toText report.phrases)

end FileReport

def FileFailure.line (colored : Bool) (failure : FileFailure) : Text :=
  Style.red.paint colored
    (units "! " ++ failure.file ++ units " (" ++ failure.phase.name ++ units "): " ++ failure.message)

namespace Tally

def summary (tally : Tally κ δ) : Text :=
  join (units ", ") (
    [Figure.counted tally.changed "file" "files" ++ units " changed of " ++
        Figure.toText tally.scanned ++ units " scanned",
      Figure.counted tally.structural "structural match" "structural matches",
      Figure.counted tally.phrases "phrase replacement" "phrase replacements"] ++
    (if tally.failures.isEmpty then [] else [ofNat tally.failures.length ++ units " failed"]) ++
    (if tally.preview then [units "(dry-run)"] else []))

def format (colored : Bool) (tally : Tally κ δ) : Text :=
  let changed := tally.files.filter FileReport.changed
  join [lineFeed] (
    changed.map (FileReport.line colored tally.preview) ++
    tally.failures.map (FileFailure.line colored) ++
    (if changed.isEmpty && tally.failures.isEmpty then
      [Style.gray.paint colored (units "No changes.")] else []) ++
    [Style.gray.paint colored tally.summary])

end Tally

end

namespace PresetInfo

def flag : SourceKind → Text
  | .rules => units "--rules  "
  | .phrases => units "--phrases"

def line (colored : Bool) (width : Nat) (preset : PresetInfo) : Text :=
  Style.gray.paint colored (flag preset.kind) ++ units " " ++
    Style.bold.paint colored (padEnd width preset.name) ++
    (if preset.description.isEmpty then [] else units "  " ++ preset.description)

def format (colored : Bool) (presets : List PresetInfo) : Text :=
  if presets.isEmpty then Style.gray.paint colored (units "No presets.")
  else
    let width := (presets.map fun preset => preset.name.length).foldl max 0
    join [lineFeed] (presets.map (line colored width))

def toJson (preset : PresetInfo) : Json :=
  .record [("kind", .string preset.kind.name), ("name", .string preset.name),
    ("description", .string preset.description), ("file", .string preset.file)]

end PresetInfo

end Emend

import Emend.FileError
import Emend.Json.Printer
import Emend.Preset.MessageText
import Emend.Preset.ZhEnComments
import Emend.Preset.ZhEnFollowup1
import Emend.Preset.ZhEnFollowup2
import Emend.Preset.ZhEnFollowup3
import Emend.Preset.ZhEnFollowup4

/-! The built-in sources. Each has a file of its own in the directory of its kind, named after the
document it holds. -/

namespace Emend

open Text

inductive Preset where
  | rules (document : RuleDocument)
  | phrases (document : PhraseDocument)
  deriving DecidableEq, Repr

namespace Preset

def kind : Preset → SourceKind
  | rules _ => .rules
  | phrases _ => .phrases

def name : Preset → Text
  | rules document => document.name
  | phrases document => document.name

def description : Preset → Text
  | rules document => document.description.getD []
  | phrases document => document.description.getD []

/-- All presets, the rules before the phrases and each kind in the order of names. -/
def all : List Preset :=
  [.rules messageText, .phrases zhEnComments, .phrases zhEnFollowup1, .phrases zhEnFollowup2,
    .phrases zhEnFollowup3, .phrases zhEnFollowup4]

def isNameUnit (u : UInt16) : Bool := isLower u || isDigit u || u == hyphen

def isName (t : Text) : Bool :=
  !t.isEmpty && t.head? != some hyphen && t.all isNameUnit

def fileName (name : Text) : Text := name ++ units ".json"

def directory (data : Text) (kind : SourceKind) : Text := data ++ units "/" ++ kind.name

/-- Where a preset of this name would be, if the text can be a name. -/
def path? (data : Text) (kind : SourceKind) (name : Text) : Option Text :=
  if isName name then some (directory data kind ++ units "/" ++ fileName name) else none

def fileNameLimit : Nat := 255

/-- The preset of a kind and a name. A name too long for a file cannot be looked up. -/
def find (data : Text) (kind : SourceKind) (name : Text) : Except FileError (Option Preset) :=
  match path? data kind name with
  | none => .ok none
  | some path =>
    if fileNameLimit < (fileName name).length then .error (.failed .nameTooLong "open" (some path))
    else .ok (all.find? fun preset => preset.kind = kind && preset.name = name)

def memberLine (depth : Nat) (name : String) (value : Text) : Text :=
  List.replicate depth space ++ Json.quoted (units name) ++ units ": " ++ Json.quoted value

def ruleLines (rule : RuleSource) : Text :=
  units "    \x7b\n" ++ memberLine 6 "name" rule.name ++ units ",\n" ++
    memberLine 6 "pattern" rule.pattern ++ units ",\n" ++
    memberLine 6 "replacement" rule.replacement ++ units "\n    \x7d"

def phraseLine (phrase : Phrase) : Text :=
  units "    [" ++ Json.quoted phrase.key ++ units ", " ++ Json.quoted phrase.value ++ units "]"

/-- The text of a preset's file: a member a line, then its items under a member of their own. -/
def fileText (preset : Preset) : Text :=
  let (member, items) := match preset with
    | rules document => ("rules", document.items.map ruleLines)
    | phrases document => ("entries", document.items.map phraseLine)
  units "\x7b\n" ++ memberLine 2 "name" preset.name ++ units ",\n" ++
    memberLine 2 "description" preset.description ++ units ",\n  \"" ++ units member ++
    units "\": [\n" ++ join (units ",\n") items ++ units "\n  ]\n\x7d\n"

end Preset

structure PresetInfo where
  kind : SourceKind
  name : Text
  description : Text
  file : Text
  deriving DecidableEq, Repr

/-- The presets of a directory in the order of their files. -/
def PresetInfo.list (data : Text) : List PresetInfo :=
  Preset.all.map fun preset =>
    ⟨preset.kind, preset.name, preset.description,
      Preset.directory data preset.kind ++ units "/" ++ Preset.fileName preset.name⟩

end Emend

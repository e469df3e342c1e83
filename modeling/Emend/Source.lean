import Emend.Boundary
import Emend.Plan
import Emend.Preset.Catalogue

/-! Loading what a run applies. A source is the name of a preset or the path of a JSON file; the
preset wins. Everything is loaded before any file of the corpus is touched. -/

namespace Emend

open Text

/-- Rules or phrases with the name of their document and the file they came from. -/
structure Loaded (α : Type) where
  name : Text
  origin : Text
  content : α

structure SourceOptions where
  /-- The directory against which files are named; the working directory if not given. -/
  directory : Option Text
  /-- The encoding of source files; UTF-8 if not given. -/
  encoding : Option Text

inductive InputContent where
  | text (t : Text)
  /-- The name of the encoding was empty, and so the bytes were left as they are. -/
  | bytes (b : Bytes)
  deriving DecidableEq, Repr

/-- The text, which bytes that were left as they are spell in UTF-8. -/
def InputContent.toText : InputContent → Text
  | text t => t
  | bytes b => Utf8.decode b

structure InputFile where
  path : Text
  content : InputContent

namespace Workspace

def directoryOf (space : Workspace) (given : Option Text) : Path :=
  match given with
  | some path => space.directory.resolve path
  | none => space.directory

/-- A word that is taken for the name of an encoding but stands for bytes that are left as they
are, so that no text can be made in it. -/
def bytesName : Text := units "buffer"

/-- Read bytes in an encoding, whatever they are: what cannot be decoded is replaced. -/
def decodeInput (encoding : Option Text) (bytes : Bytes) : Except Failure InputContent :=
  match encoding with
  | none => .ok (.text (Utf8.decode bytes))
  | some name =>
    if name.isEmpty then .ok (.bytes bytes)
    else if name = bytesName then .error (.coding (.unknownEncoding name))
    else match Encoding.named? name with
      | some encoding => .ok (.text (encoding.decode bytes))
      | none => .error (.invalidEncoding name)

/-- A file given by name, or nothing when there is none. It must be a regular file inside the
boundary. -/
def readInput (space : Workspace) (input : Text) (options : SourceOptions) :
    Except Failure (Option InputFile) := do
  let directory := space.directoryOf options.directory
  let path := (directory.resolve input).toText
  match space.stat path with
  | .error error => if error.isMissing then .ok none else .error (.file error)
  | .ok (.file bytes _) =>
    space.checkBoundary directory.toText path (units "Input path")
    .ok (some ⟨path, ← decodeInput options.encoding bytes⟩)
  | .ok _ => .error (.notAFile path)

end Workspace

/-- Where a document was found: among the presets, or in a file that is to be read as one. -/
inductive SourceOrigin where
  | preset (path : Text) (preset : Preset)
  | file (file : InputFile)

/-- Where presets are kept, and the workspace in which files are looked up. -/
structure Library where
  data : Text
  space : Workspace

namespace Library

/-- Find a source: a preset of its kind and name, else a file. -/
def locate (library : Library) (kind : SourceKind) (source : Text) (options : SourceOptions) :
    Except Failure SourceOrigin := do
  match ← (Preset.find library.data kind source).mapError .file with
  | some preset =>
    .ok (.preset (Preset.directory library.data kind ++ units "/" ++ Preset.fileName source) preset)
  | none =>
    match ← library.space.readInput source options with
    | some file => .ok (.file file)
    | none => .error (.unknownSource kind source)

def readDocument {α : Type} (kind : SourceKind) (check : Option Json → Schema.Checked α)
    (file : InputFile) : Except Failure α := do
  let json ← (Json.parse file.content.toText).mapError (.invalidJson kind file.path)
  (check (some json)).mapError (.invalidDocument kind file.path)

section

variable [Schema.Validation]

def loadRules (library : Library) (source : Text) (options : SourceOptions) :
    Except Failure (Loaded (List Rule)) := do
  let (origin, document) ← match ← library.locate .rules source options with
    | .preset path (.rules document) => .ok (path, document)
    | .preset _ (.phrases _) => .error (.unknownSource .rules source)
    | .file file => do .ok (file.path, ← readDocument .rules Schema.checkRules file)
  .ok ⟨document.name, origin, ← document.compileRules.mapError .rule⟩

def loadPhrases (library : Library) (source : Text) (options : SourceOptions) :
    Except Failure (Loaded PhraseTable) := do
  let (origin, document) ← match ← library.locate .phrases source options with
    | .preset path (.phrases document) => .ok (path, document)
    | .preset _ (.rules _) => .error (.unknownSource .phrases source)
    | .file file => do .ok (file.path, ← readDocument .phrases Schema.checkPhrases file)
  .ok ⟨document.name, origin, ← document.table.mapError .table⟩

end

end Library

structure LoadedPlan where
  plan : Plan
  ruleSets : List Text
  phraseTables : List (Loaded PhraseTable)

/-- Load rule sets and phrase tables in the order given. The rules are joined; each table stays a
pass of its own. -/
def Library.loadPlan [Schema.Validation] (library : Library) (rules phrases : List Text) (options : SourceOptions) :
    Except Failure LoadedPlan := do
  if rules.isEmpty && phrases.isEmpty then .error .nothingToApply
  else
    let ruleSets ← rules.mapM fun source => library.loadRules source options
    let tables ← phrases.mapM fun source => library.loadPhrases source options
    .ok ⟨⟨ruleSets.flatMap Loaded.content, tables.map Loaded.content⟩, ruleSets.map Loaded.name, tables⟩

end Emend

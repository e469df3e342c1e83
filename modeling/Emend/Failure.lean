import Emend.Encoding.Basic
import Emend.FileError
import Emend.Json.Reader
import Emend.Schema

/-! Everything that can stop a run, by cause, with the wording of its message. -/

namespace Emend

open Text

/-- The wording of what is wrong with a regular expression or with a JSON text. -/
structure Wording where
  expression : Expression.Defect → Text
  json : Json.Defect → Text

def Wording.plain : Wording := ⟨Expression.Defect.summary, Json.Defect.summary⟩

inductive Boundary where
  | repository (root : Text)
  | directory (path : Text)
  deriving DecidableEq, Repr

def Boundary.message (label path : Text) : Boundary → Text
  | repository root =>
    label ++ units " resolves outside repository root: " ++ toLower label ++ units "=" ++ path ++
      units " repoRoot=" ++ root ++ units "."
  | directory cwd =>
    label ++ units " resolves outside cwd: " ++ toLower label ++ units "=" ++ path ++
      units " cwd=" ++ cwd ++ units "."

inductive Failure where
  | file (error : FileError)
  | coding (error : CodingError)
  /-- A name that no reading of whole files knows as an encoding. -/
  | invalidEncoding (name : Text)
  | outside (label path : Text) (boundary : Boundary)
  | notAFile (path : Text)
  | unknownSource (kind : SourceKind) (source : Text)
  | invalidJson (kind : SourceKind) (path : Text) (reason : Json.Defect)
  | invalidDocument (kind : SourceKind) (path : Text) (issues : List Schema.Issue)
  | rule (defect : Rule.Defect)
  | table (defect : PhraseTable.Defect)
  | nothingToApply
  | noSource
  | corpusNotFound (path : Text)
  | stale (path : Text)
  /-- What a caller's own code has raised. -/
  | raised (message : Text)
  deriving DecidableEq, Repr

def Failure.message (wording : Wording) : Failure → Text
  | file error => error.message
  | coding error => error.message
  | invalidEncoding name =>
    units "The argument 'encoding' is invalid encoding. Received " ++ quotation name
  | outside label path boundary => boundary.message label path
  | notAFile path => units "Input path is not a file: " ++ path
  | unknownSource kind source =>
    units "Unknown " ++ kind.label ++ units " \"" ++ source ++
      units "\": not a built-in preset or an existing file."
  | invalidJson kind path reason =>
    units "Invalid JSON in " ++ kind.label ++ units " " ++ path ++ units ": " ++ wording.json reason
  | invalidDocument kind path issues =>
    units "Invalid " ++ kind.label ++ units " " ++ path ++ units ": " ++ Schema.issuesMessage issues
  | rule defect => defect.message wording.expression
  | table defect => defect.message
  | nothingToApply => units "Nothing to apply: pass at least one rule set or phrase table."
  | noSource => units "Pass at least one --rules or --phrases source."
  | corpusNotFound path => units "Corpus not found: " ++ path
  | stale path =>
    units "File changed during rewrite: " ++ path ++
      units ". Re-run rulecast to avoid overwriting concurrent edits."
  | raised message => message

end Emend

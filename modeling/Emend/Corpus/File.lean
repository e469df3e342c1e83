import Emend.Corpus.Script
import Emend.Failure
import Emend.Path.Relative
import Emend.Plan
import Emend.Report

/-! The script of one corpus file: read it, revise its text and, if that changed it, replace it.

A file is replaced through a sibling that is renamed over it, and only while its bytes still equal
those that were read; it keeps its mode. -/

namespace Emend

open Text

namespace Corpus

structure File where
  path : Text
  bytes : Bytes
  text : Text

/-- The sibling through which a file is replaced. The token tells it from all other siblings. -/
def temporaryPath (token path : Text) : Text :=
  normalize (directoryPart path ++ units "." ++ baseName path ++ units ".rulecast-" ++ token ++
    units ".tmp")

def decodeFile (path encoding : Text) (bytes : Bytes) : Except Failure File := do
  let text ← (decodeLosslessly bytes encoding path).mapError .coding
  .ok ⟨path, bytes, text⟩

def read (path encoding : Text) : Script (Except Failure File) :=
  .read path fun result => .done <|
    match result with
    | .error fault => .error fault.toFailure
    | .ok bytes => decodeFile path encoding bytes

/-- Move the sibling over the file. If that fails the sibling is removed, and whether or not that
succeeds, the failure of the move is the one reported. -/
def moveOver (temporary path : Text) : Script (Except Failure Unit) :=
  .rename temporary path fun moved =>
    match moved with
    | .ok () => .done (.ok ())
    | .error fault => .remove temporary fun _ => .done (.error fault.toFailure)

/-- Write a text over a file that still has the bytes it was read with. -/
def replace (token : Text) (file : File) (text encoding : Text) : Script (Except Failure Unit) :=
  match encodeLosslessly text encoding file.path with
  | .error error => .done (.error (.coding error))
  | .ok bytes =>
    .read file.path fun current =>
      match current with
      | .error _ => .done (.error (.stale file.path))
      | .ok current =>
        .stat file.path fun mode =>
          match mode with
          | .error _ => .done (.error (.stale file.path))
          | .ok mode =>
            if current = file.bytes then
              let temporary := temporaryPath token file.path
              .write temporary bytes mode fun written =>
                match written with
                | .error fault => .done (.error fault.toFailure)
                | .ok () => moveOver temporary file.path
            else .done (.error (.stale file.path))

structure FileOptions where
  plan : Plan
  /-- The directory against which files are shown. -/
  directory : Text
  encoding : Text
  preview : Bool

namespace FileOptions

def failed (options : FileOptions) (path : Text) (phase : Phase) (failure : Failure) : FileOutcome :=
  .failed ⟨displayPath options.directory path, phase, failure.message .plain⟩

def matched (options : FileOptions) (file : File) (revision : Revision) : FileOutcome :=
  .matched
    ⟨displayPath options.directory file.path, revision.changed, revision.structural, revision.phrases,
      if revision.changed then
        (byteLengthNamed options.encoding revision.text : Int) - file.bytes.length
      else 0⟩

end FileOptions

/-- Write the revision of a file. The caller is told before and may refuse. -/
def writeRevision (options : FileOptions) (token : Text) (file : File) (revision : Revision) :
    Script FileOutcome := do
  match ← (.announce file.path file.text revision.text .done : Script (Except Fault Unit)) with
  | .error fault => return options.failed file.path .write fault.toFailure
  | .ok () =>
    match ← replace token file revision.text options.encoding with
    | .error failure => return options.failed file.path .write failure
    | .ok () => return options.matched file revision

/-- Revise one file. Every failure of a call, of the encoding or of the caller becomes a failure of
this file. -/
def revise (options : FileOptions) (token path : Text) : Script FileOutcome := do
  match ← read path options.encoding with
  | .error failure => return options.failed path .read failure
  | .ok file =>
    let revision := options.plan.revise file.text
    if revision.untouched then return .unmatched
    else if revision.changed && !options.preview then writeRevision options token file revision
    else return options.matched file revision

end Corpus

end Emend
